import Schemata.Proofs.Resolution.Pipeline
import Schemata.Proofs.Resolution.ReorderedCompletion
import Schemata.Proofs.Resolution.ReorderedDeclarations
import Schemata.Proofs.Resolution.ReorderedOwnership
import Schemata.Proofs.Resolution.ReorderedParents
import Schemata.Proofs.Resolution.ReorderedTables

/-!
# Runs in another order

A run of the standard passes is followed pass by pass by a run on the same models in another order. The parents of a pointer are the
models that point at it in both runs, so that they are the same but for their order.
-/

namespace Schemata.Resolution

variable {d e d' e' : Draft} {settings : Settings} {schema schema' : SchemaDeclaration} {k n : String}

/-! ## What drafts that are alike have in common -/

namespace Draft.Alike

theorem classesDistinct (h : d.Alike e) (hc : d.ClassesDistinct) : e.ClassesDistinct :=
  classesDistinct_congr (h.sameOutlines.map_eq fun _ => rfl) hc

theorem relation? (h : d.Alike e) (k n : String) :
    (e.relation? k n).map Relation.withoutParents = (d.relation? k n).map Relation.withoutParents := by
  have hview : ∀ c : Draft, (c.relation? k n).map Relation.withoutParents =
      ((c.models.get? k).map Model.withoutParents).bind fun m => m.relations.get? n := by
    intro c
    unfold Draft.relation?
    cases c.models.get? k with
    | none => rfl
    | some m => exact (Slots.get?_mapValues _ _ _).symm
  rw [hview, hview, h.models]

theorem exists_pointer (h : d.Alike e) {r : Relation} {t : MorphTo} (hr : d.relation? k n = some r) (hl : r.link = .morphTo t) :
    ∃ r' t', e.relation? k n = some r' ∧ r'.link = .morphTo t' ∧ t'.columnName = t.columnName := by
  have hk := h.relation? k n
  rw [hr] at hk
  obtain ⟨r', hr', heq⟩ := Option.map_eq_some_iff.mp hk
  obtain ⟨models, rfl⟩ := Relation.exists_morphTo heq hl
  exact ⟨_, _, hr', rfl, rfl⟩

theorem namesDistinct (h : d.Alike e) (hd : NamesDistinct (d.relation? k)) : NamesDistinct (e.relation? k) := by
  intro n n' r r' t t' hr hl hr' hl' hname
  obtain ⟨r₁, t₁, hr₁, hl₁, hname₁⟩ := h.symm.exists_pointer hr hl
  obtain ⟨r₂, t₂, hr₂, hl₂, hname₂⟩ := h.symm.exists_pointer hr' hl'
  exact hd hr₁ hl₁ hr₂ hl₂ (hname₁.trans (hname.trans hname₂.symm))

theorem unmixed (h : d.Alike e) (hd : d.Keyed) (hc : d.ClassesDistinct) (hu : d.Unmixed) : e.Unmixed := by
  have htarget := Draft.target_congr (h.sameOutlines.findModel? hd hc)
  have hdeclares : ∀ {l}, e.Declares l → d.Declares l := by
    rintro l ⟨s, text, hs, hline⟩
    exact ⟨s, text, (h.declarations l.model).symm.trans hs, hline⟩
  intro l l' hl hk hl' hk' hne hpoints key target given hkey hn hgiven
  rw [htarget] at hpoints hkey
  obtain ⟨m, hm, hmn⟩ := h.symm.exists_model hn
  have hname : keyName l m = keyName l target := Model.congr_withoutParents (g := keyName l) (fun _ => rfl) hmn
  rw [← hname]
  exact hu (hdeclares hl) hk (hdeclares hl') hk' hne hpoints hkey hm hgiven

end Draft.Alike

theorem Relation.parent?_withoutParents (r : Relation) (owner columnName : String) (place : RelationName) :
    r.withoutParents.link.parent? owner place columnName = r.link.parent? owner place columnName := by
  obtain ⟨name, methods, link⟩ := r
  cases link <;> rfl

/-- Pointers of drafts that are alike have the same parents if all parents are those that point at them. -/
theorem Draft.Known.sameParents (hd : d.Known) (hd' : d'.Known) (hs : d.Sound) (hs' : d'.Sound) (h : d.Alike d') :
    d.SameParents d' := by
  have hto : ∀ {c c' : Draft}, c.Alike c' → ∀ {k n columnName p},
      (∃ a j r, c.relation? a j = some r ∧ r.link.parent? a ⟨k, n⟩ columnName = some p) →
      ∃ a j r, c'.relation? a j = some r ∧ r.link.parent? a ⟨k, n⟩ columnName = some p := by
    rintro c c' hcc k n columnName p ⟨a, j, r, hr, hp⟩
    have hk := hcc.relation? a j
    rw [hr] at hk
    obtain ⟨r', hr', heq⟩ := Option.map_eq_some_iff.mp hk
    exact ⟨a, j, r', hr', by rw [← Relation.parent?_withoutParents, heq, Relation.parent?_withoutParents, hp]⟩
  rintro ⟨k, n⟩ t t' ht ht' p
  obtain ⟨m, r, hm, hr, hl⟩ := (mem_pointers_iff hs).mp ht
  obtain ⟨m', r', hm', hr', hl'⟩ := (mem_pointers_iff hs').mp ht'
  have hr := Draft.relation?_eq_some_iff.mpr ⟨m, hm, hr⟩
  have hr' := Draft.relation?_eq_some_iff.mpr ⟨m', hm', hr'⟩
  have hname : t'.columnName = t.columnName := by
    obtain ⟨r₁, t₁, hr₁, hl₁, hname⟩ := h.exists_pointer hr hl
    obtain rfl := Option.some_inj.mp (hr₁.symm.trans hr')
    obtain rfl : t₁ = t' := Link.morphTo.inj (hl₁.symm.trans hl')
    exact hname
  rw [hd.parents hr hl, hd'.parents hr' hl', hname]
  exact ⟨hto h.symm, hto h⟩

/-! ## Sameness up to the order of parents -/

/-- Relations that are the same up to the order of the parents of a `morphTo`. -/
structure SameRelation (r r' : Relation) : Prop where
  apart : r'.withoutParents = r.withoutParents
  parents : r.link.parents.Perm r'.link.parents

/-- Models that are the same up to the order of parents. -/
structure SameModel (m n : Model) : Prop where
  columns : n.columns = m.columns
  relations (name) : Option.Rel SameRelation (m.relations.get? name) (n.relations.get? name)
  /-- Relations come in the same order, and all else is the same, too. -/
  apart : n.withoutParents = m.withoutParents

theorem SameModel.get?_belongsTo {m n : Model} (h : SameModel m n) {name : String} {r : Relation} {link : BelongsTo}
    (hr : n.relations.get? name = some r) (hl : r.link = .belongsTo link) : m.relations.get? name = some r := by
  have hname := h.relations name
  rw [hr] at hname
  cases hr' : m.relations.get? name with
  | none => rw [hr'] at hname; cases hname
  | some r' =>
    rw [hr'] at hname
    cases hname with
    | some hsame =>
      have hkind : r.kind ≠ .morphTo := by rw [Relation.kind, hl]; simp [Link.kind]
      exact congrArg some (Relation.eq_of_withoutParents hsame.apart.symm hkind)

/-- Pointers with the same parents have each of them once. -/
theorem sameRelation_of_alike (hd : d.Sound) (he : e.Sound) (h : d.Alike e) (hp : d.SameParents e) {r r' : Relation}
    (hr : d.relation? k n = some r) (hr' : e.relation? k n = some r') : SameRelation r r' := by
  have heq := h.relation? k n
  rw [hr, hr', Option.map_some, Option.map_some, Option.some_inj] at heq
  refine ⟨heq, ?_⟩
  by_cases hk : r.kind = .morphTo
  · cases hl : r.link with
    | morphTo link =>
      obtain ⟨models, rfl⟩ := Relation.exists_morphTo heq hl
      obtain ⟨m, hm, hr⟩ := Draft.relation?_eq_some_iff.mp hr
      obtain ⟨m', hm', hr'⟩ := Draft.relation?_eq_some_iff.mp hr'
      have hsame := hp ((mem_pointers_iff hd).mpr ⟨m, r, hm, hr, hl⟩) ((mem_pointers_iff he).mpr ⟨m', _, hm', hr', rfl⟩)
      have hnodup := (hd.model k m hm).parents hr
      rw [hl] at hnodup
      exact (List.perm_ext_iff_of_nodup hnodup ((he.model k m' hm').parents hr')).mpr fun p => (hsame p).symm
    | _ => rw [Relation.kind, hl] at hk; cases hk
  · rw [Relation.eq_of_withoutParents heq hk]

theorem sameModel_of_alike (hd : d.Sound) (he : e.Sound) (h : d.Alike e) (hp : d.SameParents e) (k : String) :
    Option.Rel SameModel (d.models.get? k) (e.models.get? k) := by
  cases hm : d.models.get? k with
  | none =>
    have hk := h.models k
    rw [hm] at hk
    rw [Option.map_eq_none_iff.mp hk]
    exact .none
  | some m =>
    obtain ⟨n, hn, heq⟩ := h.exists_model hm
    rw [hn]
    refine .some ⟨Model.congr_withoutParents (g := Model.columns) (fun _ => rfl) heq, fun name => ?_, heq⟩
    have hrelation := h.relation? k name
    rw [Draft.relation?_of_get? hm, Draft.relation?_of_get? hn] at hrelation
    unfold Model.relation? at hrelation
    cases hr : m.relations.get? name with
    | none =>
      rw [hr] at hrelation
      rw [Option.map_eq_none_iff.mp hrelation]
      exact .none
    | some r =>
      rw [hr] at hrelation
      obtain ⟨r', hr', _⟩ := Option.map_eq_some_iff.mp hrelation
      rw [hr']
      exact .some (sameRelation_of_alike hd he h hp (Draft.relation?_eq_some_iff.mpr ⟨m, hm, hr⟩)
        (Draft.relation?_eq_some_iff.mpr ⟨n, hn, hr'⟩))

/-! ## Declarations -/

/-- The passes up to that of columns lead to drafts that are alike, in which no two classes differ in case alone. -/
theorem reordered_declared (h : Reordered schema schema')
    (hrun : Completes [.quickModels, .modelShells, .relationReservations, .columns] (.start settings schema) d) :
    ∃ d', Completes [.quickModels, .modelShells, .relationReservations, .columns] (.start settings schema') d' ∧
      d.Alike d' ∧ d.ClassesDistinct := by
  obtain ⟨d₁, h₁, d₂, h₂, d₃, h₃, d₄, h₄, rfl⟩ := hrun
  obtain ⟨e₁, h₁', halike₁⟩ := reordered_quickModels h h₁
  have hempty : ∀ {schema : SchemaDeclaration} {c}, Pass.quickModels.body (.start settings schema) = .ok () c → c.models = .empty := by
    intro schema c hc
    obtain ⟨_, _, rfl⟩ := quickModels_iff.mp hc
    rfl
  obtain ⟨e₂, h₂', halike₂⟩ := reordered_modelShells (hempty h₁) (hempty h₁') halike₁ h₂
  obtain ⟨e₃, h₃', halike₃⟩ := reordered_relationReservations halike₂ h₃
  have hbare := (founded_of_completes ⟨d₁, h₁, d₂, h₂, d₃, h₃, rfl⟩).2
  have hbare' := (founded_of_completes ⟨e₁, h₁', e₂, h₂', e₃, h₃', rfl⟩).2
  obtain ⟨e₄, h₄', halike₄⟩ := reordered_columns hbare hbare' halike₃ h₄
  have hclasses : d₃.ClassesDistinct := by
    obtain rfl := Resolve.modify_run_ok.mp h₃
    refine Draft.classesDistinct_congr (fun k => ?_) (classesDistinct_modelShells (hempty h₁) h₂)
    rw [get?_reserveRelations, Option.map_map]
    rfl
  exact ⟨e₄, ⟨e₁, h₁', e₂, h₂', e₃, h₃', e₄, h₄', rfl⟩, halike₄, hclasses.along (declared_columns h₄) Declaring.sameIdentity⟩

/-! ## Models -/

/-- Drafts that two runs have come to. -/
structure Draft.Twin (d d' : Draft) : Prop where
  alike : d.Alike d'
  sound : d.Sound
  sound' : d'.Sound
  classes : d.ClassesDistinct

namespace Draft.Twin

variable (h : d.Twin d')
include h

theorem classes' : d'.ClassesDistinct :=
  h.alike.classesDistinct h.classes

theorem edited {stages stages' : List Stage} (hd : Edited stages d e) (hd' : Edited stages' d' e') (ha : e.Alike e') : e.Twin e' :=
  ⟨ha, h.sound.edited hd, h.sound'.edited hd', h.classes.edited hd⟩

theorem joins (hrun : Completes [.belongsToMany, .hasOneOrMany, .hasOneOrManyThrough] d e) :
    ∃ e', Completes [.belongsToMany, .hasOneOrMany, .hasOneOrManyThrough] d' e' ∧ e.Twin e' := by
  obtain ⟨d₁, h₁, d₂, h₂, d₃, h₃, rfl⟩ := hrun
  obtain ⟨e₁, h₁', halike₁⟩ := reordered_belongsToMany h.sound h.classes h.sound' h.classes' h.alike h₁
  have t₁ := h.edited (edited_belongsToMany h.sound h₁).1 (edited_belongsToMany h.sound' h₁').1 halike₁
  obtain ⟨e₂, h₂', halike₂⟩ := reordered_hasOneOrMany t₁.sound t₁.classes t₁.sound' t₁.classes' t₁.alike h₂
  have t₂ := t₁.edited (edited_hasOneOrMany t₁.sound h₂).1 (edited_hasOneOrMany t₁.sound' h₂').1 halike₂
  obtain ⟨e₃, h₃', halike₃⟩ := reordered_hasOneOrManyThrough t₂.sound t₂.classes t₂.sound' t₂.classes' t₂.alike h₃
  exact ⟨e₃, ⟨e₁, h₁', e₂, h₂', e₃, h₃', rfl⟩,
    t₂.edited (edited_hasOneOrManyThrough t₂.sound h₃).1 (edited_hasOneOrManyThrough t₂.sound' h₃').1 halike₃⟩

theorem parents (hrun : Completes [.morphOneOrMany, .morphToMany] d e) :
    ∃ e', Completes [.morphOneOrMany, .morphToMany] d' e' ∧ e.Twin e' := by
  obtain ⟨d₁, h₁, d₂, h₂, rfl⟩ := hrun
  obtain ⟨e₁, h₁', halike₁⟩ := reordered_morphOneOrMany h.sound h.classes h.sound' h.classes' h.alike h₁
  have t₁ := h.edited (edited_morphOneOrMany h.sound h₁).1 (edited_morphOneOrMany h.sound' h₁').1 halike₁
  obtain ⟨e₂, h₂', halike₂⟩ := reordered_morphToMany t₁.sound t₁.classes t₁.sound' t₁.classes' t₁.alike h₂
  exact ⟨e₂, ⟨e₁, h₁', e₂, h₂', rfl⟩,
    t₁.edited (edited_morphToMany t₁.sound h₂).1 (edited_morphToMany t₁.sound' h₂').1 halike₂⟩

end Draft.Twin

theorem rooted_of_laid (h : ∀ k n, d.models.get? k = some n → ∃ s, d.declarations.get? k = some s ∧ Laid s n) :
    ∀ k n, d.models.get? k = some n → Rooted n := by
  intro k n hn hp
  obtain ⟨s, _, hlaid⟩ := h k n hn
  exact hlaid.primaryColumn? hp

/-- A course on the same models in another order comes to the same models, apart from the order of parents. -/
theorem Course.exists_reordered (c : Course settings schema) (h : Reordered schema schema') (hu : c.declared.Unmixed)
    (hnames : ∀ k, NamesDistinct (c.complete.relation? k)) :
    ∃ c' : Course settings schema', c.complete.Alike c'.complete ∧
      ∀ k, Option.Rel SameModel (c.complete.models.get? k) (c'.complete.models.get? k) := by
  obtain ⟨declared, hcolumns, hdeclared, hclasses⟩ := reordered_declared h c.columns
  obtain ⟨hfounded, hlaid⟩ := founded_laid_of_completes hcolumns
  have t₀ : c.declared.Twin declared := ⟨hdeclared, c.sound_declared, hfounded.sound, hclasses⟩
  -- Key columns come from columns that no turn of another model makes.
  have hawaits : declared.Awaits .belongsTo := awaits_of_laid hlaid rfl
  obtain ⟨owned, hbelongsTo, howned⟩ := reordered_belongsTo t₀.sound t₀.classes (awaits_of_laid c.founded_laid.2 rfl)
    (rooted_of_laid c.founded_laid.2) hu t₀.sound' t₀.classes' hawaits (rooted_of_laid hlaid)
    (t₀.alike.unmixed t₀.sound.keyed t₀.classes hu) t₀.alike c.belongsTo
  have hedited := (edited_belongsTo t₀.sound' hawaits hbelongsTo).1
  have t₁ := t₀.edited c.reaches_owned.1 hedited howned
  obtain ⟨joined, hjoins, t₂⟩ := t₁.joins c.joins
  have hedited := hedited.append (reaches_joins t₁.sound' hjoins).1
  obtain ⟨pointed, hmorphTo, hpointed⟩ := reordered_morphTo t₂.alike c.morphTo
  have t₃ := t₂.edited c.reaches_pointed.1 (edited_morphTo hmorphTo).1 hpointed
  have hedited := hedited.append (edited_morphTo hmorphTo).1
  obtain ⟨linked, hparents, t₄⟩ := t₃.parents c.parents
  -- In both runs all parents of pointers are known.
  have hknown' : linked.Known := (unrelated_of_laid hlaid).known_parents hfounded.sound hedited (by decide)
    (fun k => t₃.alike.namesDistinct (c.namesDistinct_pointed hnames k)) hparents
  obtain ⟨pivoted, hpivotModels, hpivoted⟩ := reordered_pivotModels t₄.alike c.pivotModels
  have hpivots := edited_pivotModels hpivotModels
  have t₅ := t₄.edited c.edited_pivoted hpivots hpivoted
  have hsame := ((c.known_linked hnames).congr (c.edited_pivoted.relation?_eq (by decide))).sameParents
    (hknown'.congr (hpivots.relation?_eq (by decide))) t₅.sound t₅.sound' t₅.alike
  obtain ⟨paired, hmorphColumns, hpaired⟩ := reordered_morphColumns t₅.sound.keyed t₅.sound'.keyed t₅.alike hsame c.morphColumns
  obtain ⟨complete, hmodelAttributes, hcomplete⟩ := reordered_modelAttributes hpaired c.modelAttributes
  let c' : Course settings schema' := ⟨declared, owned, joined, pointed, linked, pivoted, paired, complete, hcolumns, hbelongsTo,
    hjoins, hmorphTo, hparents, hpivotModels, hmorphColumns, hmodelAttributes⟩
  have hknown : c'.complete.Known := c'.known_complete fun k => hcomplete.namesDistinct (hnames k)
  exact ⟨c', hcomplete, sameModel_of_alike c.founded.sound c'.founded.sound hcomplete
    ((c.known_complete hnames).sameParents hknown c.founded.sound c'.founded.sound hcomplete)⟩

/-! ## Whole runs -/

theorem reordered_completes (h : Reordered schema schema')
    (hu : ∀ d, Completes [.quickModels, .modelShells, .relationReservations, .columns] (.start settings schema) d → d.Unmixed)
    (hs : ∀ m ∈ e.models.values, SingleKey m) (hrun : Completes standardPasses (.start settings schema) e) :
    ∃ e', Completes standardPasses (.start settings schema') e' ∧ e.Alike e' ∧
      ∀ k, Option.Rel SameModel (e.models.get? k) (e'.models.get? k) := by
  rw [standardPasses_eq] at hrun
  obtain ⟨d, hd, hrest⟩ := completes_append.mp hrun
  have hsettled := settled_of_modelPasses hd hrest
  obtain ⟨c, rfl⟩ := hsettled.course
  obtain ⟨c', halike, hsame⟩ := c.exists_reordered h (hu _ c.columns) (c.namesDistinct_of_checked hsettled.checked)
  obtain ⟨d₁, h₁, d₂, h₂, d₃, h₃, d₄, h₄, d₅, h₅, rfl⟩ := hrest
  obtain ⟨e₁, h₁', halike₁⟩ := reordered_finalizeModels halike h₁
  obtain ⟨rfl, _⟩ := finalizeModels_ok h₁
  have hempty : c.complete.migrations = .empty := by rw [c.founded.rest]; rfl
  obtain ⟨e₄, htables, halike₄⟩ := reordered_tables hempty c.founded.tables (hsettled.models ▸ hs) halike₁
    ⟨d₂, h₂, d₃, h₃, d₄, h₄, rfl⟩
  obtain ⟨e₅, h₅', halike₅⟩ := reordered_artifacts halike₄ h₅
  have hrest' : Completes [.finalizeModels, .explicitMigrations, .modelMigrations, .pivotMigrations, .artifacts] c'.complete e₅ :=
    .cons h₁' (htables.append ⟨e₅, h₅', rfl⟩)
  have hmodels' := (settled_of_modelPasses c'.completes hrest').models
  refine ⟨e₅, standardPasses_eq ▸ c'.completes.append hrest', halike₅, ?_⟩
  rw [hsettled.models, hmodels']
  exact hsame

end Schemata.Resolution
