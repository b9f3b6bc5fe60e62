import Schemata.Proofs.Resolution.Outlines
import Schemata.Proofs.Resolution.ManyToMany
import Schemata.Proofs.Resolution.Ownership

/-!
# Relations in another order

A turn that joins models fills the place of its line, gives a pivot model its type, and makes parents known. It reads models in
outline, which no such turn changes, so that the turns of different models may change places.
-/

namespace Schemata.Resolution

open Schemata.Convention Resolve

variable {d e d' : Draft} {l l' : DeclaredRelation} {link link' : Link} {pivot pivot' : Option String} {type : ModelType}
  {k : String} {m n : Model}

/-! ## Turns as changes of models -/

/-- Fills the place of a relation line. -/
def fillPlace (l : DeclaredRelation) (link : Link) (k : String) (m : Model) : Model :=
  if k = l.model then { m with relations := m.relations.resolve l.name ⟨l.name, l.methods, link⟩ } else m

/-- Gives a pivot model its type. -/
def claimType (pivot : Option String) (type : ModelType) (k : String) (m : Model) : Model :=
  if pivot = some k then { m with type } else m

/-- What a turn makes of a model, apart from parents. -/
def turned (l : DeclaredRelation) (link : Link) (pivot : Option String) (type : ModelType) (k : String) (m : Model) : Model :=
  fillPlace l link k (claimType pivot type k m)

theorem Model.withoutParents_resolve (m : Model) (name : String) (r : Relation) :
    { m with relations := m.relations.resolve name r }.withoutParents =
      { m.withoutParents with relations := m.withoutParents.relations.resolve name r.withoutParents } :=
  congrArg (fun relations => { m with relations }) (m.relations.mapValues_resolve name r Relation.withoutParents)

theorem blind_fillPlace (l : DeclaredRelation) (link : Link) : Blind (fillPlace l link) := by
  intro k m n h
  unfold fillPlace
  split
  · rw [Model.withoutParents_resolve, h, Model.withoutParents_resolve]
  · exact h

theorem blind_claimType (pivot : Option String) (type : ModelType) : Blind (claimType pivot type) := by
  intro k m n h
  unfold claimType
  split
  · exact congrArg (fun m : Model => { m with type }) h
  · exact h

theorem blind_turned (l : DeclaredRelation) (link : Link) (pivot : Option String) (type : ModelType) :
    Blind (turned l link pivot type) :=
  fun _ _ _ h => blind_fillPlace l link (blind_claimType pivot type h)

theorem claimType_comm : claimType pivot type k (claimType pivot' type k m) = claimType pivot' type k (claimType pivot type k m) := by
  unfold claimType
  split <;> split <;> rfl

theorem fillPlace_claimType : fillPlace l link k (claimType pivot type k m) = claimType pivot type k (fillPlace l link k m) := by
  unfold fillPlace claimType
  split <;> split <;> rfl

theorem fillPlace_comm (hne : l.model ≠ l'.model) :
    fillPlace l link k (fillPlace l' link' k m) = fillPlace l' link' k (fillPlace l link k m) := by
  unfold fillPlace
  split
  · rename_i hk
    rw [if_neg fun hk' => hne (hk.symm.trans hk'), if_neg fun hk' => hne (hk.symm.trans hk')]
  · rfl

/-- Turns of different models, which give pivot models the same type, do the same in either order. -/
theorem turned_comm (hne : l.model ≠ l'.model) :
    turned l link pivot type k (turned l' link' pivot' type k m) =
      turned l' link' pivot' type k (turned l link pivot type k m) := by
  unfold turned
  rw [← fillPlace_claimType, fillPlace_comm hne, claimType_comm, fillPlace_claimType (l := l)]

/-- A turn that fills a place that others do not see leaves the model as they see it. -/
theorem outline_turned (hlink : link.kind.needsColumn = false)
    (h : k = l.model → m.outline.relations.slot? l.name = some .pending) : (turned l link pivot type k m).outline = m.outline := by
  have hfill : (fillPlace l link k m).outline = m.outline := by
    unfold fillPlace
    split
    · rename_i hk
      have hnone : (Relation.mk l.name l.methods link).outline? = none := by
        unfold Relation.outline?
        exact if_neg (by simpa [Relation.kind] using hlink)
      have hrelations : (m.relations.resolve l.name ⟨l.name, l.methods, link⟩).map.mapEntries
          (fun _ slot => Slot.ofOption (slot.value?.bind Relation.outline?)) = m.outline.relations.map := by
        unfold Slots.resolve
        rw [OrderedMap.mapEntries_insert]
        change OrderedMap.insert _ _ (Slot.ofOption (Relation.outline? _)) = _
        rw [hnone]
        exact OrderedMap.insert_eq_self (h hk)
      exact congrArg (fun map => { m with type := .plain, relations := ⟨map⟩ }) hrelations
    · rfl
  have hclaim : (turned l link pivot type k m).outline = (fillPlace l link k m).outline := by
    unfold turned fillPlace claimType
    split <;> split <;> rfl
  exact hclaim.trans hfill

/-! ## Passes over relation lines -/

/-- A pass over lines does the same with the models in another order if its turns may change places. -/
theorem reordered_lines {kinds : List RelationKind} {read : Draft → Except SchemaFault (List DeclaredRelation)}
    {f : DeclaredRelation → Resolve Unit} {P : List DeclaredRelation → Draft → Prop}
    (hlists : ∀ {d ls}, read d = .ok ls → d.Lists kinds ls)
    (hregrouped : ∀ {d e : Draft} {ls}, (∀ k, e.declarations.get? k = d.declarations.get? k) → read d = .ok ls →
      ∃ ls', read e = .ok ls' ∧ Regrouped DeclaredRelation.model ls ls')
    (hf : Commutes DeclaredRelation.model Draft.Alike P f) (hd : ∀ {ls}, d.Lists kinds ls → P ls d)
    (hd' : ∀ {ls}, d'.Lists kinds ls → P ls d') (h : d.Alike d') (hrun : (do (← inspect read).forM f) d = .ok () e) :
    ∃ e', (do (← inspect read).forM f) d' = .ok () e' ∧ e.Alike e' := by
  obtain ⟨ls, c, hi, hrun⟩ := bind_run_ok.mp hrun
  obtain ⟨hr, rfl⟩ := inspect_run_ok.mp hi
  obtain ⟨ls', hr', hls⟩ := hregrouped h.declarations hr
  obtain ⟨e', he', halike⟩ := hf.forM_regrouped hls (hd (hlists hr)) (hd' (hlists hr')) h hrun
  exact ⟨e', bind_run_ok.mpr ⟨ls', d', inspect_run_ok.mpr ⟨hr', rfl⟩, he'⟩, halike⟩

/-- The turns of a pass read models in outline, and fill places that stand in no column. -/
structure Outward {ρ : Type} (f : DeclaredRelation → Resolve Unit) (read : DeclaredRelation → Draft → Except SchemaFault ρ)
    (effect : DeclaredRelation → ρ → String → Model → Model) (type : ModelType) : Prop where
  run : ∀ {l d e}, f l d = .ok () e ↔ ∃ r, read l d = .ok r ∧ e = d.mapModels (effect l r)
  reads : ∀ {l d e}, Outlined d e → read l e = read l d
  turns : ∀ l r, ∃ link pivot, link.kind.needsColumn = false ∧
    ∀ k m, (effect l r k m).withoutParents = (turned l link pivot type k m).withoutParents

/-- What the turns of a pass that joins models need of a draft. -/
structure Draft.Ready (kinds : List RelationKind) (ls : List DeclaredRelation) (d : Draft) : Prop where
  sound : d.Sound
  classes : d.ClassesDistinct
  declares : ∀ l ∈ ls, d.Declares l ∧ l.kind ∈ kinds

/-- The place of a line that stands in no column is not seen by others. -/
theorem Draft.Sound.slot?_outline (hd : d.Sound) (hl : d.Declares l) (hk : l.kind.needsColumn = false)
    (hm : d.models.get? l.model = some m) : m.outline.relations.slot? l.name = some .pending := by
  have hs := hd.model l.model m hm
  have hname : l.name ∈ m.relations.keys := hs.names ▸ List.mem_map_of_mem hl.line
  obtain ⟨slot, hslot⟩ := Slots.mem_keys_iff.mp hname
  rw [Model.slot?_outline, hslot, Option.map_some]
  cases slot with
  | pending => rfl
  | resolved r =>
    have hr := hs.relation (Slots.get?_eq_some_iff.mpr hslot)
    have hkind : r.kind = l.kind := Draft.kind_unique hr.2.1 hl.line
    have hnone : r.outline? = none := if_neg (by simp [hkind, hk])
    exact congrArg (fun o => some (Slot.ofOption o)) hnone

namespace Outward

variable {ρ : Type} {f : DeclaredRelation → Resolve Unit} {read : DeclaredRelation → Draft → Except SchemaFault ρ}
  {effect : DeclaredRelation → ρ → String → Model → Model} {kinds : List RelationKind} {stages : List Stage}

theorem blind (h : Outward f read effect type) (l : DeclaredRelation) (r : ρ) : Blind (effect l r) := by
  obtain ⟨link, pivot, _, heq⟩ := h.turns l r
  intro k m n hmn
  rw [heq, heq]
  exact blind_turned l link pivot type hmn

theorem comm (h : Outward f read effect type) (hne : l.model ≠ l'.model) (r r' : ρ) (k : String) (m : Model) :
    (effect l r k (effect l' r' k m)).withoutParents = (effect l' r' k (effect l r k m)).withoutParents := by
  obtain ⟨link, pivot, _, heq⟩ := h.turns l r
  obtain ⟨link', pivot', _, heq'⟩ := h.turns l' r'
  rw [heq, blind_turned l link pivot type (heq' k m), turned_comm hne, heq', blind_turned l' link' pivot' type (heq k m)]

theorem sameOutlines (h : Outward f read effect type) (hd : d.Sound) (hl : d.Declares l) (hk : l.kind.needsColumn = false)
    (r : ρ) : d.SameOutlines (d.mapModels (effect l r)) := by
  obtain ⟨link, pivot, hlink, heq⟩ := h.turns l r
  intro k
  rw [Draft.get?_mapModels]
  cases hm : d.models.get? k with
  | none => rfl
  | some m =>
    have houtline : (turned l link pivot type k m).outline = m.outline :=
      outline_turned hlink fun heq => hd.slot?_outline hl hk (heq ▸ hm)
    exact congrArg some ((Model.outline_congr (heq k m)).trans houtline)

theorem plans (h : Outward f read effect type) (hkinds : ∀ kind ∈ kinds, kind.needsColumn = false)
    (hedited : ∀ {l d e}, d.Sound → d.Declares l → l.kind ∈ kinds → f l d = .ok () e → Edited stages d e) :
    Plans DeclaredRelation.model (Draft.Ready kinds) f fun l d w => ∃ r, read l d = .ok r ∧ w = effect l r where
  run {l d e} := by
    rw [h.run]
    constructor
    · rintro ⟨r, hr, rfl⟩
      exact ⟨_, ⟨r, hr, rfl⟩, rfl⟩
    · rintro ⟨_, ⟨r, hr, rfl⟩, rfl⟩
      exact ⟨r, hr, rfl⟩
  perm hp hP := ⟨hP.sound, hP.classes, fun l hl => hP.declares l (hp.mem_iff.mpr hl)⟩
  keep := by
    rintro l rest d _ hP ⟨r, hr, rfl⟩
    obtain ⟨hl, hk⟩ := hP.declares l List.mem_cons_self
    have he := hedited hP.sound hl hk (h.run.mpr ⟨r, hr, rfl⟩)
    have hs := h.sameOutlines hP.sound hl (hkinds _ hk) r
    refine ⟨hP.sound.edited he, Draft.classesDistinct_congr (hs.map_eq fun _ => rfl) hP.classes, fun l' hl' => ?_⟩
    obtain ⟨hdeclares, hkind⟩ := hP.declares l' (List.mem_cons_of_mem l hl')
    exact ⟨hdeclares.along he, hkind⟩
  blind := by
    rintro l d _ ⟨r, _, rfl⟩
    exact h.blind l r
  alike := by
    rintro l rest rest' d d' _ hP _ halike ⟨r, hr, rfl⟩
    exact ⟨r, (h.reads (halike.sameOutlines.outlined hP.sound.keyed hP.classes)).trans hr, rfl⟩
  apart := by
    rintro l l' rest d _ w' _ hP ⟨r, _, rfl⟩
    obtain ⟨hl, hk⟩ := hP.declares l List.mem_cons_self
    have hs := h.sameOutlines hP.sound hl (hkinds _ hk) r
    simp only [h.reads (hs.outlined hP.sound.keyed hP.classes)]
  swap := by
    rintro l l' rest d _ _ hne _ ⟨r, _, rfl⟩ ⟨r', _, rfl⟩ k m _
    exact h.comm hne r r' k m

end Outward

/-! ## Linking two models -/

theorem pivotModel?_congr (h : e.findModel? = d.findModel?) (l : DeclaredRelation) : pivotModel? l e = pivotModel? l d := by
  unfold pivotModel?
  rw [h]

theorem Draft.mapModels_id {w : String → Model → Model} (h : ∀ k m, w k m = m) : d.mapModels w = d := by
  have hmodels : d.models.mapEntries w = d.models := by
    refine OrderedMap.ext ?_
    change d.models.entries.map _ = _
    simp only [h, Prod.eta, List.map_id']
  exact congrArg (fun models => { d with models }) hmodels

theorem claimPivot_run_ok : claimPivot l type d = .ok pivot e ↔
    pivotModel? l d = .ok pivot ∧ e = d.mapModels (claimType pivot type) := by
  have hclaim : (pivot.elim d fun key => d.modifyModel key ({ · with type })) = d.mapModels (claimType pivot type) := by
    cases pivot with
    | none => exact (Draft.mapModels_id fun _ _ => rfl).symm
    | some key =>
      refine congrArg d.mapModels (funext fun k => funext fun m => ?_)
      unfold claimType
      simp only [Option.some_inj, eq_comm]
  constructor
  · intro h
    obtain ⟨hp, rfl⟩ := claimPivot_ok h
    exact ⟨hp, hclaim⟩
  · rintro ⟨hp, rfl⟩
    rw [← hclaim]
    exact claimPivot_of_ok hp type

theorem sameOutlines_claimType (d : Draft) (pivot : Option String) (type : ModelType) :
    d.SameOutlines (d.mapModels (claimType pivot type)) := by
  intro k
  rw [Draft.get?_mapModels]
  cases d.models.get? k with
  | none => rfl
  | some m =>
    refine congrArg some ?_
    unfold claimType
    split <;> rfl

/-- The link of a line to a model, which may go through a pivot model. -/
def linkMany (l : DeclaredRelation) (target : String) (pivot : Option String) (d : Draft) : Except SchemaFault BelongsToMany := do
  manyLink d l (← d.model target) pivot

theorem linkMany_congr (h : d.SameOutlines e) (l : DeclaredRelation) (target : String) (pivot : Option String) :
    linkMany l target pivot e = linkMany l target pivot d := by
  have htable : ∀ key, Model.table <$> e.model key = Model.table <$> d.model key := h.model_map fun _ => rfl
  have hlink : ∀ m, manyLink e l m pivot = manyLink d l m pivot := by
    intro m
    unfold manyLink
    simp only [htable]
    exact h.model_bind (fun _ => rfl) _
  unfold linkMany
  simp only [hlink]
  exact h.model_bind (fun _ => rfl) _

def readMany (l : DeclaredRelation) (d : Draft) : Except SchemaFault (Option String × BelongsToMany) := do
  let target ← d.target l
  let pivot ← pivotModel? l d
  return (pivot, ← linkMany l target pivot d)

theorem outward_resolveMany :
    Outward resolveMany readMany (fun l r => turned l (.belongsToMany r.2) r.1 .pivot) .pivot where
  run {l d e} := by
    have hturned : ∀ (pivot : Option String) (link : BelongsToMany),
        (d.mapModels (claimType pivot .pivot)).resolveRelation l (.belongsToMany link) =
          d.mapModels (turned l (.belongsToMany link) pivot .pivot) := fun _ _ => Draft.mapModels_mapModels ..
    rw [resolveMany_ok_iff]
    unfold readMany
    simp only [bind_eq_ok, pure_eq_ok, claimPivot_run_ok]
    constructor
    · rintro ⟨target, pivot, _, m, link, ht, ⟨hp, rfl⟩, hm, hlink, rfl⟩
      have hs := sameOutlines_claimType d pivot .pivot
      have hread := (linkMany_congr hs l target pivot).symm.trans (bind_eq_ok.mpr ⟨m, Draft.model_eq_ok.mpr hm, hlink⟩)
      exact ⟨(pivot, link), ⟨target, ht, pivot, hp, link, hread, rfl⟩, hturned pivot link⟩
    · rintro ⟨_, ⟨target, ht, pivot, hp, link, hlink, rfl⟩, rfl⟩
      have hs := sameOutlines_claimType d pivot .pivot
      obtain ⟨m, hm, hread⟩ := bind_eq_ok.mp ((linkMany_congr hs l target pivot).trans hlink)
      exact ⟨target, pivot, _, m, link, ht, ⟨hp, rfl⟩, Draft.model_eq_ok.mp hm, hread, (hturned pivot link).symm⟩
  reads {l d e} h := by
    unfold readMany
    simp only [Draft.target_congr h.find, pivotModel?_congr h.find, linkMany_congr h.models]
  turns l r := ⟨_, _, rfl, fun _ _ => rfl⟩

theorem reordered_belongsToMany (hd : d.Sound) (hc : d.ClassesDistinct) (hd' : d'.Sound) (hc' : d'.ClassesDistinct)
    (h : d.Alike d') (hrun : Pass.belongsToMany.body d = .ok () e) :
    ∃ e', Pass.belongsToMany.body d' = .ok () e' ∧ e.Alike e' :=
  reordered_lines Draft.lists_of_declaredRelations (fun hk hr => declaredRelations_regrouped hk hr)
    (outward_resolveMany.plans (show ∀ kind ∈ [RelationKind.belongsToMany], kind.needsColumn = false by decide)
      fun hd hl hk hf => resolveMany_edited hd hl (List.mem_singleton.mp hk) hf).commutes
    (fun hls => ⟨hd, hc, hls.declares⟩) (fun hls => ⟨hd', hc', hls.declares⟩) h hrun

/-! ## Having models -/

def readHaving (l : DeclaredRelation) (d : Draft) : Except SchemaFault HasOneOrMany := do
  havingLink l (← d.model (← d.target l))

theorem outward_resolveHaving : Outward (fun l => .update (resolveHaving l)) readHaving
    (fun l link => fillPlace l (if l.kind = .hasOne then .hasOne link else .hasMany link)) .plain where
  run {l d e} := by
    rw [update_run_ok, resolveHaving_ok_iff]
    unfold readHaving
    simp only [bind_eq_ok, Draft.model_eq_ok]
    constructor
    · rintro ⟨target, m, link, ht, hm, hlink, rfl⟩
      exact ⟨link, ⟨target, ht, m, hm, hlink⟩, rfl⟩
    · rintro ⟨link, ⟨target, ht, m, hm, hlink⟩, rfl⟩
      exact ⟨target, m, link, ht, hm, hlink, rfl⟩
  reads {l d e} h := by
    unfold readHaving
    rw [Draft.target_congr h.find]
    refine congrArg _ (funext fun target => h.models.model_bind (fun m => ?_) target)
    unfold havingLink
    rw [m.belongsTo?_outline]
    rfl
  turns l link := ⟨_, none, by split <;> rfl, fun _ _ => rfl⟩

theorem reordered_hasOneOrMany (hd : d.Sound) (hc : d.ClassesDistinct) (hd' : d'.Sound) (hc' : d'.ClassesDistinct)
    (h : d.Alike d') (hrun : Pass.hasOneOrMany.body d = .ok () e) :
    ∃ e', Pass.hasOneOrMany.body d' = .ok () e' ∧ e.Alike e' :=
  reordered_lines (Draft.lists_of_declaredRelationsOf (by decide)) (fun hk hr => declaredRelationsOf_regrouped hk hr)
    (outward_resolveHaving.plans (show ∀ kind ∈ [RelationKind.hasOne, .hasMany], kind.needsColumn = false by decide)
      fun hd hl hk hf => (resolveHaving_edited hd hl hk (update_run_ok.mp hf)).1).commutes
    (fun hls => ⟨hd, hc, hls.declares⟩) (fun hls => ⟨hd', hc', hls.declares⟩) h hrun

/-! ## Having models through others -/

theorem intermediate_congr (h : d.SameOutlines e) (l : DeclaredRelation) (target : String) :
    intermediate e l target = intermediate d l target := by
  have hmap : ∀ c, (e.models.get? c).map (fun m => (m.belongsTo? l.model).isSome) =
      (d.models.get? c).map fun m => (m.belongsTo? l.model).isSome :=
    h.map_eq fun m => by rw [m.belongsTo?_outline]
  have hany : ∀ c, ((e.models.get? c).any fun m => (m.belongsTo? l.model).isSome) =
      (d.models.get? c).any fun m => (m.belongsTo? l.model).isSome := by
    intro c
    have hid := congrArg (Option.any fun b => b) (hmap c)
    rwa [Option.any_map, Option.any_map] at hid
  unfold intermediate
  simp only [hany]
  refine h.model_bind (fun m => ?_) target
  rw [m.belongsToRelations_outline]

theorem throughPair_congr (h : Outlined d e) (l : DeclaredRelation) : throughPair e l = throughPair d l := by
  unfold throughPair pairByName? Draft.resolveReference
  simp only [Draft.target_congr h.find, intermediate_congr h.models, h.find]

theorem checkLink_congr (h : d.SameOutlines e) (l : DeclaredRelation) (source target : String) :
    checkLink e l source target = checkLink d l source target := by
  unfold checkLink
  refine h.model_bind (fun m => ?_) source
  rw [m.belongsTo?_outline]

/-- The link of a line to models behind others, which form a chain unless it names its keys. -/
def readThrough (l : DeclaredRelation) (d : Draft) : Except SchemaFault Through := do
  let (model, through) ← throughPair d l
  let link : Through := ⟨model, through, l.argument? 2, l.argument? 3⟩
  if link.firstKey.isNone && link.secondKey.isNone then
    checkLink d l model through
    checkLink d l through l.model
  return link

theorem outward_resolveThrough : Outward (fun l => .update (resolveThrough l)) readThrough
    (fun l link => fillPlace l (if l.kind = .hasOneThrough then .hasOneThrough link else .hasManyThrough link)) .plain where
  run {l d e} := by
    rw [update_run_ok]
    have hrun : resolveThrough l d = (fun link => d.resolveRelation l
        (if l.kind = .hasOneThrough then .hasOneThrough link else .hasManyThrough link)) <$> readThrough l d := by
      unfold resolveThrough readThrough
      rw [map_bind]
      refine congrArg _ (funext fun pair => ?_)
      dsimp only
      split
      · simp only [map_bind, map_pure]
      · rfl
    rw [hrun, map_eq_ok]
    simp only [eq_comm]
    rfl
  reads {l d e} h := by
    unfold readThrough
    simp only [throughPair_congr h, checkLink_congr h.models]
  turns l link := ⟨_, none, by split <;> rfl, fun _ _ => rfl⟩

theorem reordered_hasOneOrManyThrough (hd : d.Sound) (hc : d.ClassesDistinct) (hd' : d'.Sound) (hc' : d'.ClassesDistinct)
    (h : d.Alike d') (hrun : Pass.hasOneOrManyThrough.body d = .ok () e) :
    ∃ e', Pass.hasOneOrManyThrough.body d' = .ok () e' ∧ e.Alike e' :=
  reordered_lines (Draft.lists_of_declaredRelationsOf (by decide)) (fun hk hr => declaredRelationsOf_regrouped hk hr)
    (outward_resolveThrough.plans
      (show ∀ kind ∈ [RelationKind.hasOneThrough, .hasManyThrough], kind.needsColumn = false by decide)
      fun hd hl hk hf => (resolveThrough_edited hd hl hk (update_run_ok.mp hf)).1).commutes
    (fun hls => ⟨hd, hc, hls.declares⟩) (fun hls => ⟨hd', hc', hls.declares⟩) h hrun

end Schemata.Resolution
