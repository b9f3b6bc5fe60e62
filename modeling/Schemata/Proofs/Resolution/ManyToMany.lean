import Schemata.Proofs.Resolution.Kept
import Schemata.Resolution.ManyToMany

/-!
# Passes of relations that are linked through a table
-/

namespace Schemata.Resolution

open Schemata.Convention

variable {d e : Draft} {l : DeclaredRelation} {stages : List Stage} {k n key : String}

/-! ## Claiming a pivot model -/

/-- The model of a key is a pivot model. -/
def Claimed (key : String) (d : Draft) : Prop :=
  ∀ m, d.models.get? key = some m → m.isPivot = true

/-- A pivot model stays one, though it may change its type. -/
theorem Claimed.edited (hc : Claimed key d) (h : Edited stages d e) : Claimed key e := by
  intro n hn
  obtain ⟨m, hm, _⟩ := h.back hn
  refine h.keeps (P := fun m => m.isPivot = true) (fun he hP => ?_) hm hn (hc m hm)
  cases he with
  | claim _ ht => exact ht
  | placeKey _ _ => unfold Model.isPivot; rw [type_placeKey]; exact hP
  | dropAddedKey _ => unfold Model.isPivot; rw [type_dropAddedKey]; exact hP
  | _ => exact hP

theorem pivotModel?_ok (hd : d.Sound) {pivot : Option String} (h : pivotModel? l d = .ok pivot) :
    pivot.toList ⊆ d.models.keys := by
  unfold pivotModel? at h
  split at h
  · obtain rfl := pure_eq_ok.mp h
    exact List.nil_subset _
  · split at h
    · rename_i hf
      obtain rfl := pure_eq_ok.mp h
      exact List.cons_subset.mpr ⟨Draft.mem_keys_of_findModel? hd.keyed hf, List.nil_subset _⟩
    · exact absurd h throw_ne_ok

theorem claimPivot_ok {type : ModelType} {pivot : Option String} (h : claimPivot l type d = .ok pivot e) :
    pivotModel? l d = .ok pivot ∧ e = pivot.elim d fun key => d.modifyModel key ({ · with type }) := by
  obtain ⟨found, c, hi, h⟩ := Resolve.bind_run_ok.mp h
  obtain ⟨hp, rfl⟩ := Resolve.inspect_run_ok.mp hi
  cases found with
  | none =>
    obtain ⟨rfl, rfl⟩ := Resolve.pure_run_ok.mp h
    exact ⟨hp, rfl⟩
  | some key =>
    obtain ⟨_, c, hm, h⟩ := Resolve.bind_run_ok.mp h
    obtain ⟨rfl, rfl⟩ := Resolve.pure_run_ok.mp h
    exact ⟨hp, (Resolve.modify_run_ok.mp hm).symm⟩

theorem claimPivot_of_ok {pivot : Option String} (h : pivotModel? l d = .ok pivot) (type : ModelType) :
    claimPivot l type d = .ok pivot (pivot.elim d fun key => d.modifyModel key ({ · with type })) := by
  refine Resolve.bind_run_ok.mpr ⟨pivot, d, Resolve.inspect_run_ok.mpr ⟨h, rfl⟩, ?_⟩
  cases pivot <;> rfl

theorem claimPivot_none {type : ModelType} {pivot : Option String} (h : claimPivot l type d = .ok pivot e)
    (hp : l.pivot = none) : pivot = none := by
  have hpivot := (claimPivot_ok h).1
  unfold pivotModel? at hpivot
  rw [hp] at hpivot
  exact (pure_eq_ok.mp hpivot).symm

theorem claimed_claimPivot {type : ModelType} (ht : type.isPivot = true) (h : claimPivot l type d = .ok (some key) e) :
    Claimed key e := by
  obtain ⟨_, rfl⟩ := claimPivot_ok h
  intro m hm
  obtain ⟨_, _, rfl⟩ := Draft.exists_of_get?_modifyModel hm
  exact ht

theorem claimed_of_claimPivot {type : ModelType} {pivot : Option String} {e' : Draft} (ht : type.isPivot = true)
    (h : claimPivot l type d = .ok pivot e) (he : Edited stages e e') : ∀ key, pivot = some key → Claimed key e' := by
  rintro key rfl
  exact (claimed_claimPivot ht h).edited he

/-- A pivot model is claimed by its type alone. -/
theorem atPlace_claimPivot {type : ModelType} {pivot : Option String} (h : claimPivot l type d = .ok pivot e) :
    e.atPlace k n = d.atPlace k n := by
  obtain ⟨_, rfl⟩ := claimPivot_ok h
  cases pivot with
  | none => rfl
  | some key => exact Draft.atPlace_modifyModel fun _ _ => rfl

theorem claimPivot_edited (stages : List Stage) (hd : d.Sound) {type : ModelType} (ht : type.isPivot = true)
    (hs : .belongsToMany ∈ stages ∨ .morphToMany ∈ stages) {pivot : Option String} (h : claimPivot l type d = .ok pivot e) :
    Edited stages d e ∧ pivot.toList ⊆ d.models.keys := by
  obtain ⟨hp, rfl⟩ := claimPivot_ok h
  refine ⟨?_, pivotModel?_ok hd hp⟩
  cases pivot with
  | none => exact refl_of (Edited stages) d
  | some key => exact .of_modifyModel fun _ _ => .single (.claim hs ht)

/-! ## Linking two models -/

/-- The table of a `belongsToMany`: the one that its line names, or else that of its pivot model, or else the one that follows from
the classes of both sides. -/
inductive NamesTable (d : Draft) (l : DeclaredRelation) (owner target : Model) : Option String → String → Prop
  | given {pivot : Option String} {table : String} : l.argument? 1 = some table → NamesTable d l owner target pivot table
  | ofPivot {key : String} {m : Model} : l.argument? 1 = none → d.models.get? key = some m →
      NamesTable d l owner target (some key) m.table
  | guessed : l.argument? 1 = none → NamesTable d l owner target none (pivotTable owner.className target.className)

/-- What a turn makes a link of. Its keys are those that the line names, or follow from the classes and the keys of both sides. -/
theorem manyLink_made {target : Model} {pivot : Option String} {link : BelongsToMany}
    (h : manyLink d l target pivot = .ok link) : ∃ owner table, d.models.get? l.model = some owner ∧
      NamesTable d l owner target pivot table ∧ link.foreignPivotKey ≠ link.relatedPivotKey ∧
      link = ⟨target.key, pivot, table, (l.argument? 2).getD (foreignKey owner.className owner.primaryName),
        (l.argument? 3).getD (foreignKey target.className target.primaryName), l.withPivot⟩ := by
  obtain ⟨owner, howner, h⟩ := bind_eq_ok.mp h
  have last : ∀ table foreignPivotKey relatedPivotKey : String,
      (if foreignPivotKey = relatedPivotKey then
        (throw (.equalPivotKeys l.relation foreignPivotKey) : Except SchemaFault BelongsToMany)
      else pure ⟨target.key, pivot, table, foreignPivotKey, relatedPivotKey, l.withPivot⟩) = .ok link →
      link.foreignPivotKey ≠ link.relatedPivotKey ∧
        link = ⟨target.key, pivot, table, foreignPivotKey, relatedPivotKey, l.withPivot⟩ := by
    intro table _ _ h
    split at h
    · exact absurd h throw_ne_ok
    · rename_i hne
      obtain rfl := pure_eq_ok.mp h
      exact ⟨hne, rfl⟩
  dsimp only at h
  split at h
  · rename_i named _
    exact ⟨owner, _, Draft.model_eq_ok.mp howner, .given named, last _ _ _ h⟩
  · rename_i unnamed _
    obtain ⟨table, ht, h⟩ := bind_eq_ok.mp h
    obtain ⟨m, hm, rfl⟩ := map_eq_ok.mp ht
    exact ⟨owner, _, Draft.model_eq_ok.mp howner, .ofPivot unnamed (Draft.model_eq_ok.mp hm), last _ _ _ h⟩
  · rename_i unnamed _
    exact ⟨owner, _, Draft.model_eq_ok.mp howner, .guessed unnamed, last _ _ _ h⟩

/-- The link of a line has the pivot model that is claimed for it, and that model's table unless the line names one. Its keys are
those that the line names, or follow from the classes and the keys of both sides. -/
theorem manyLink_ok {target : Model} {pivot : Option String} {link : BelongsToMany}
    (h : manyLink d l target pivot = .ok link) : ∃ owner, d.models.get? l.model = some owner ∧
      link.model = target.key ∧ link.pivot = pivot ∧
      (l.argument? 1 = none → ∀ key, pivot = some key → ∃ m, d.models.get? key = some m ∧ link.table = m.table) ∧
      link.foreignPivotKey = (l.argument? 2).getD (foreignKey owner.className owner.primaryName) ∧
      link.relatedPivotKey = (l.argument? 3).getD (foreignKey target.className target.primaryName) ∧
      ∀ table, l.argument? 1 = some table → link.table = table := by
  obtain ⟨owner, table, howner, hnames, _, rfl⟩ := manyLink_made h
  refine ⟨owner, howner, rfl, rfl, fun hnone key hkey => ?_, rfl, rfl, fun given hgiven => ?_⟩
  · cases hnames with
    | given named => exact absurd (named.symm.trans hnone) (by simp)
    | ofPivot _ hm => exact ⟨_, Option.some_inj.mp hkey ▸ hm, rfl⟩
    | guessed _ => cases hkey
  · cases hnames with
    | given named => exact Option.some_inj.mp (named.symm.trans hgiven)
    | ofPivot unnamed _ => exact absurd (unnamed.symm.trans hgiven) (by simp)
    | guessed unnamed => exact absurd (unnamed.symm.trans hgiven) (by simp)

theorem manyLink_keys_ne {target : Model} {pivot : Option String} {link : BelongsToMany}
    (h : manyLink d l target pivot = .ok link) : link.foreignPivotKey ≠ link.relatedPivotKey := by
  obtain ⟨_, _, _, _, hne, _⟩ := manyLink_made h
  exact hne

/-- Where neither a table nor a pivot model is given, the table follows from the classes of both sides. -/
theorem manyLink_guessed {target : Model} {link : BelongsToMany} (h : manyLink d l target none = .ok link)
    (hnone : l.argument? 1 = none) :
    ∃ owner, d.models.get? l.model = some owner ∧ link.table = pivotTable owner.className target.className := by
  obtain ⟨owner, table, howner, hnames, _, hlink⟩ := manyLink_made h
  have htable : link.table = table := congrArg BelongsToMany.table hlink
  cases hnames with
  | given named => exact absurd (named.symm.trans hnone) (by simp)
  | guessed _ => exact ⟨owner, howner, htable⟩

theorem manyLink_edited (hd : d.Sound) (hl : d.Declares l) (hk : l.kind = .belongsToMany) {target : Model}
    {pivot : Option String} {link : BelongsToMany} (ht : d.models.get? key = some target) (hp : pivot.toList ⊆ d.models.keys)
    (h : manyLink d l target pivot = .ok link) : Edited [.belongsToMany] d (d.resolveRelation l (.belongsToMany link)) := by
  obtain ⟨_, _, hmodel, rfl, _⟩ := manyLink_ok h
  have hkey : link.model ∈ d.models.keys := by
    rw [hmodel, hd.keyed key target ht]
    exact OrderedMap.mem_keys_iff.mpr ⟨target, ht⟩
  exact edited_resolveRelation hl hk.symm (by simp [hk, RelationKind.stage]) (List.cons_subset.mpr ⟨hkey, hp⟩) rfl

theorem resolveMany_ok_iff : resolveMany l d = .ok () e ↔ ∃ key pivot c target link, d.target l = .ok key ∧
    claimPivot l .pivot d = .ok pivot c ∧ c.models.get? key = some target ∧ manyLink c l target pivot = .ok link ∧
      e = c.resolveRelation l (.belongsToMany link) := by
  unfold resolveMany
  simp only [Resolve.bind_run_ok, Resolve.inspect_run_ok, Resolve.update_run_ok, bind_eq_ok, Draft.model_eq_ok, pure_eq_ok,
    exists_and_left, exists_eq_left', and_assoc, eq_comm (a := e)]

theorem resolveMany_edited (hd : d.Sound) (hl : d.Declares l) (hk : l.kind = .belongsToMany)
    (h : resolveMany l d = .ok () e) : Edited [.belongsToMany] d e := by
  obtain ⟨key, pivot, c, target, link, ht, hc, hm, hlink, rfl⟩ := resolveMany_ok_iff.mp h
  obtain ⟨hdc, hpivot⟩ := claimPivot_edited [.belongsToMany] hd rfl (by simp) hc
  have hce := manyLink_edited (hd.edited hdc) (hl.along hdc) hk hm (hdc.keys ▸ hpivot) hlink
  exact trans_of (Edited [.belongsToMany]) hdc hce

theorem resolveMany_apart (hne : l.relation ≠ ⟨k, n⟩) (h : resolveMany l d = .ok () e) :
    e.atPlace k n = d.atPlace k n := by
  obtain ⟨_, _, _, _, _, _, hc, _, _, rfl⟩ := resolveMany_ok_iff.mp h
  rw [Draft.atPlace_resolveRelation hne, atPlace_claimPivot hc]

theorem turns_belongsToMany (hd : d.Sound) (h : Pass.belongsToMany.body d = .ok () e) :
    Edited [.belongsToMany] d e ∧ ∀ k n, ∀ kind ∈ [RelationKind.belongsToMany], (n, kind) ∈ d.relationLines k → ∃ l c c',
      TurnIn [.belongsToMany] (·.declaredRelations .belongsToMany) resolveMany d e l c c' ∧
        l.model = k ∧ l.name = n ∧ l.kind = kind :=
  turns_of_lines Draft.lists_of_declaredRelations (fun hne hf => resolveMany_apart hne hf)
    (fun hc hl hk _ hf => resolveMany_edited (hd.edited hc) (hl.along hc) (List.mem_singleton.mp hk) hf) h

theorem edited_belongsToMany (hd : d.Sound) (h : Pass.belongsToMany.body d = .ok () e) :
    Edited [.belongsToMany] d e ∧
      ∀ k n, ∀ kind ∈ [RelationKind.belongsToMany], (n, kind) ∈ d.relationLines k → Filled k n e := by
  obtain ⟨hde, hall⟩ := turns_belongsToMany hd h
  refine ⟨hde, fun k n kind hk hn => ?_⟩
  obtain ⟨l, c, c', ht, rfl, rfl, _⟩ := hall k n kind hk hn
  obtain ⟨_, _, c, _, link, _, _, _, _, rfl⟩ := resolveMany_ok_iff.mp ht.left
  exact (filled_resolveRelation c l _).edited ht.after

/-! ## Linking a model to parents of any kind -/

theorem key_addParent (columnName parent : String) (m : Model) : (Resolution.addParent columnName parent m).key = m.key := by
  unfold Resolution.addParent
  split <;> rfl

theorem addParent_edit {lines : List (String × RelationKind)} {keys : List String} {stages : List Stage}
    {columnName parent : String} (hs : .morphOneOrMany ∈ stages ∨ .morphToMany ∈ stages) (hp : parent ∈ keys) (m : Model) :
    Relation.ReflTransGen (Edit lines keys stages) m (Resolution.addParent columnName parent m) := by
  unfold Resolution.addParent
  split
  · exact .single (.addParent hs hp)
  · exact .refl

theorem morphSides_mem {target : String} (hm : l.model ∈ d.models.keys) (ht : target ∈ d.models.keys) :
    (morphSides l target).1 ∈ d.models.keys := by
  unfold morphSides
  split
  · exact hm
  · exact ht

/-- The link of a line to or from many parents. -/
def morphsLink (l : DeclaredRelation) (link : MorphToMany) : Link :=
  if l.kind = .morphToMany then .morphToMany link else .morphedByMany link

theorem kind_morphsLink (hk : l.kind ∈ [.morphToMany, .morphedByMany]) (link : MorphToMany) :
    (morphsLink l link).kind = l.kind := by
  unfold morphsLink
  rcases List.mem_pair.mp hk with h | h <;> rw [h] <;> rfl

/-- What a turn makes its link of. -/
def readLinkMorphs (l : DeclaredRelation) (target : String) (pivot : Option String) (d : Draft) :
    Except SchemaFault MorphToMany := do
  let relationKey ← match l.argument? 1 with
    | some name => pure name
    | none => (morphName ·.className) <$> d.model (morphSides l target).2
  let table ← match pivot with
    | some key => (·.table) <$> d.model key
    | none => pure (morphTable relationKey)
  return { model := target, relationKey, pivot, table, withPivot := l.withPivot }

theorem linkMorphs_eq (l : DeclaredRelation) (target : String) (pivot : Option String) (d : Draft) :
    linkMorphs l target pivot d = (fun link : MorphToMany =>
      (pivot.elim d fun key => d.modifyModel key (addParent link.relationKey (morphSides l target).1)).resolveRelation l
        (morphsLink l link)) <$> readLinkMorphs l target pivot d := by
  unfold linkMorphs readLinkMorphs
  dsimp only
  cases l.argument? 1 <;> cases pivot <;> simp only [map_bind, map_pure] <;> rfl

/-- A link has the name that its line gives it, or else the one that follows from the class of the side that is not replaced. Its
table is that of its pivot model, or else the one that follows from its name. -/
theorem readLinkMorphs_ok {target : String} {pivot : Option String} {link : MorphToMany}
    (h : readLinkMorphs l target pivot d = .ok link) : link.model = target ∧ link.pivot = pivot ∧
      (∀ name, l.argument? 1 = some name → link.relationKey = name) ∧
      (l.argument? 1 = none → ∃ related, d.models.get? (morphSides l target).2 = some related ∧
        link.relationKey = morphName related.className) ∧
      (pivot = none → link.table = morphTable link.relationKey) := by
  have last : ∀ relationKey : String, (do
      let table ← match pivot with
        | some key => Model.table <$> d.model key
        | none => pure (morphTable relationKey)
      return ⟨target, relationKey, pivot, table, l.withPivot⟩ : Except SchemaFault MorphToMany) = .ok link →
      link.model = target ∧ link.pivot = pivot ∧ link.relationKey = relationKey ∧
        (pivot = none → link.table = morphTable link.relationKey) := by
    intro relationKey h
    cases pivot with
    | some key =>
      obtain ⟨_, _, h⟩ := bind_eq_ok.mp h
      obtain rfl := pure_eq_ok.mp h
      exact ⟨rfl, rfl, rfl, nofun⟩
    | none =>
      obtain ⟨_, htable, h⟩ := bind_eq_ok.mp h
      obtain rfl := pure_eq_ok.mp h
      exact ⟨rfl, rfl, rfl, fun _ => (pure_eq_ok.mp htable).symm⟩
  unfold readLinkMorphs at h
  dsimp only at h
  split at h
  · rename_i name named
    obtain ⟨_, hname, h⟩ := bind_eq_ok.mp h
    obtain rfl := pure_eq_ok.mp hname
    obtain ⟨hmodel, hpivot, hkey, htable⟩ := last _ h
    exact ⟨hmodel, hpivot, fun _ hgiven => hkey.trans (Option.some_inj.mp (named.symm.trans hgiven)),
      fun hnone => absurd (named.symm.trans hnone) (by simp), htable⟩
  · rename_i unnamed
    obtain ⟨_, hname, h⟩ := bind_eq_ok.mp h
    obtain ⟨related, hrelated, rfl⟩ := map_eq_ok.mp hname
    obtain ⟨hmodel, hpivot, hkey, htable⟩ := last _ h
    exact ⟨hmodel, hpivot, fun _ hgiven => absurd (unnamed.symm.trans hgiven) (by simp),
      fun _ => ⟨related, Draft.model_eq_ok.mp hrelated, hkey⟩, htable⟩

/-- A turn makes its link, of which a pivot model learns by its name. -/
theorem linkMorphs_ok {target : String} {pivot : Option String} (h : linkMorphs l target pivot d = .ok e) :
    ∃ link : MorphToMany, link.model = target ∧ link.pivot = pivot ∧
      e = (pivot.elim d fun key => d.modifyModel key (addParent link.relationKey (morphSides l target).1)).resolveRelation l
        (morphsLink l link) ∧
      (∀ name, l.argument? 1 = some name → link.relationKey = name) ∧
      (l.argument? 1 = none → ∃ related, d.models.get? (morphSides l target).2 = some related ∧
        link.relationKey = morphName related.className) ∧
      (pivot = none → link.table = morphTable link.relationKey) := by
  rw [linkMorphs_eq] at h
  obtain ⟨link, hread, rfl⟩ := map_eq_ok.mp h
  obtain ⟨hmodel, hpivot, hnames⟩ := readLinkMorphs_ok hread
  exact ⟨link, hmodel, hpivot, rfl, hnames⟩

theorem linkMorphs_edited (hd : d.Sound) (hl : d.Declares l) (hk : l.kind ∈ [.morphToMany, .morphedByMany])
    {target : String} {pivot : Option String} (ht : target ∈ d.models.keys) (hp : pivot.toList ⊆ d.models.keys)
    (h : linkMorphs l target pivot d = .ok e) : Edited [.morphToMany] d e := by
  obtain ⟨link, rfl, rfl, rfl, _⟩ := linkMorphs_ok h
  have hparent := morphSides_mem (hd.mem_keys hl.line) ht
  have hdc : Edited [.morphToMany] d
      (link.pivot.elim d fun key => d.modifyModel key (addParent link.relationKey (morphSides l link.model).1)) := by
    cases link.pivot with
    | none => exact refl_of (Edited [.morphToMany]) d
    | some key => exact .of_modifyModel fun m _ => addParent_edit (by simp) hparent m
  have hs : link.model :: link.pivot.toList ⊆ d.models.keys := List.cons_subset.mpr ⟨ht, hp⟩
  rw [← hdc.keys] at hs
  have hstage : l.kind.stage ∈ [Stage.morphToMany] := by
    rcases List.mem_pair.mp hk with h | h <;> simp [h, RelationKind.stage]
  have hce := edited_resolveRelation_either (.morphToMany link) (.morphedByMany link) (hl.along hdc) hk hstage hs hs ⟨rfl, rfl⟩
  exact trans_of (Edited [.morphToMany]) hdc hce

theorem resolveMorphs_ok_iff : resolveMorphs l d = .ok () e ↔ ∃ target pivot c, d.target l = .ok target ∧
    claimPivot l .morphPivot d = .ok pivot c ∧ linkMorphs l target pivot c = .ok e := by
  unfold resolveMorphs
  simp only [Resolve.bind_run_ok, Resolve.inspect_run_ok, Resolve.update_run_ok, exists_and_left, exists_eq_left', and_assoc]

/-- A turn claims the pivot model of its line first, and then links. -/
theorem resolveMorphs_edited (hd : d.Sound) (hl : d.Declares l) (hk : l.kind ∈ [.morphToMany, .morphedByMany])
    (h : resolveMorphs l d = .ok () e) : Edited [.morphToMany] d e := by
  obtain ⟨target, pivot, c, ht, hc, h⟩ := resolveMorphs_ok_iff.mp h
  obtain ⟨hdc, hpivot⟩ := claimPivot_edited [.morphToMany] hd rfl (by simp) hc
  have htarget : target ∈ c.models.keys := hdc.keys ▸ Draft.mem_keys_of_target hd.keyed ht
  have hce := linkMorphs_edited (hd.edited hdc) (hl.along hdc) hk htarget (hdc.keys ▸ hpivot) h
  exact trans_of (Edited [.morphToMany]) hdc hce

theorem atPlace_resolution_addParent (columnName parent n : String) (m : Model) :
    atPlace n (Resolution.addParent columnName parent m) = atPlace n m := by
  unfold Resolution.addParent
  split
  · exact atPlace_addParent _ _ _
  · rfl

theorem resolveMorphs_apart (hne : l.relation ≠ ⟨k, n⟩) (h : resolveMorphs l d = .ok () e) :
    e.atPlace k n = d.atPlace k n := by
  obtain ⟨target, pivot, c, _, hc, h⟩ := resolveMorphs_ok_iff.mp h
  obtain ⟨link, _, rfl, rfl, _⟩ := linkMorphs_ok h
  rw [Draft.atPlace_resolveRelation hne, ← atPlace_claimPivot hc]
  cases link.pivot with
  | none => rfl
  | some key => exact Draft.atPlace_modifyModel fun _ _ => atPlace_resolution_addParent _ _ _ _

theorem turns_morphToMany (hd : d.Sound) (h : Pass.morphToMany.body d = .ok () e) :
    Edited [.morphToMany] d e ∧ ∀ k n, ∀ kind ∈ [RelationKind.morphToMany, .morphedByMany],
      (n, kind) ∈ d.relationLines k → ∃ l c c',
        TurnIn [.morphToMany] (·.declaredRelationsOf .morphToMany .morphedByMany) resolveMorphs d e l c c' ∧
          l.model = k ∧ l.name = n ∧ l.kind = kind :=
  turns_of_lines (Draft.lists_of_declaredRelationsOf (by decide)) (fun hne hf => resolveMorphs_apart hne hf)
    (fun hc hl hk _ hf => resolveMorphs_edited (hd.edited hc) (hl.along hc) hk hf) h

theorem edited_morphToMany (hd : d.Sound) (h : Pass.morphToMany.body d = .ok () e) :
    Edited [.morphToMany] d e ∧
      ∀ k n, ∀ kind ∈ [RelationKind.morphToMany, .morphedByMany], (n, kind) ∈ d.relationLines k → Filled k n e := by
  obtain ⟨hde, hall⟩ := turns_morphToMany hd h
  refine ⟨hde, fun k n kind hk hn => ?_⟩
  obtain ⟨l, c, c', ht, rfl, rfl, _⟩ := hall k n kind hk hn
  obtain ⟨_, _, _, _, _, h⟩ := resolveMorphs_ok_iff.mp ht.left
  obtain ⟨link, _, _, rfl, _⟩ := linkMorphs_ok h
  exact (filled_resolveRelation _ l _).edited ht.after

/-! ## Pivot models -/

theorem checkPivot_ok {owner : String} {r : Relation} (h : checkPivot d owner r = .ok ()) (hp : r.link.pivot? = some key) :
    ∃ m, d.models.get? key = some m ∧ (needsMorphTo r.link = true → m.morphToRelations ≠ []) ∧
      ∀ side ∈ pivotSides owner r.link, (m.belongsTo? side).isSome := by
  unfold checkPivot at h
  rw [hp] at h
  obtain ⟨m, hm, h⟩ := bind_eq_ok.mp h
  refine ⟨m, Draft.model_eq_ok.mp hm, ?_⟩
  have sides : (pivotSides owner r.link).forM (fun side =>
      if (m.belongsTo? side).isNone then throw (.pivotWithoutBelongsTo key ⟨owner, r.name⟩ side) else pure ()) =
        (.ok () : Except SchemaFault Unit) → ∀ side ∈ pivotSides owner r.link, (m.belongsTo? side).isSome := by
    intro h side hs
    have hside := forM_eq_ok.mp h side hs
    split at hside
    · exact absurd hside throw_ne_ok
    · rename_i hb
      simpa [Option.isSome_iff_ne_none] using hb
  dsimp only at h
  split at h
  · obtain ⟨_, hthrow, _⟩ := bind_eq_ok.mp h
    exact absurd hthrow throw_ne_ok
  · rename_i hn
    exact ⟨fun hneeds hempty => hn (by simp [hneeds, hempty]), sides h⟩

/-- Once the pivot models have given up their added keys, they are checked. -/
theorem pivotModels_ok (h : Pass.pivotModels.body d = .ok () e) :
    e = { d with models := d.models.mapEntries fun _ m => dropAddedKey m } ∧ checkPivots e = .ok () := by
  obtain ⟨_, c, hm, h⟩ := Resolve.bind_run_ok.mp h
  obtain rfl := Resolve.modify_run_ok.mp hm
  obtain ⟨hc, rfl⟩ := Resolve.inspect_run_ok.mp h
  exact ⟨rfl, hc⟩

theorem checkPivots_ok (hd : d.Keyed) (h : checkPivots d = .ok ()) {m : Model} (hm : d.models.get? k = some m)
    {r : Relation} (hr : m.relations.get? n = some r) : checkPivot d k r = .ok () := by
  have hmodel := forM_eq_ok.mp h m (OrderedMap.mem_values_iff.mpr ⟨k, hm⟩)
  exact hd k m hm ▸ forM_eq_ok.mp hmodel r (Slots.mem_values_iff.mpr ⟨n, hr⟩)

theorem edited_pivotModels (h : Pass.pivotModels.body d = .ok () e) : Edited [.pivotModels] d e := by
  obtain ⟨rfl, _⟩ := pivotModels_ok h
  exact .of_mapEntries fun _ _ _ => .dropAddedKey (by simp)

/-! ## Faults -/

theorem failsInSchema_claimPivot (l : DeclaredRelation) (type : ModelType) :
    Resolve.FailsInSchema (claimPivot l type) := by
  refine .bind (.inspect _) fun pivot => ?_
  cases pivot with
  | none => exact .bind (.pure _) fun _ => .pure _
  | some key => exact .bind (.modify _) fun _ => .pure _

theorem failsInSchema_belongsToMany : Resolve.FailsInSchema Pass.belongsToMany.body :=
  .bind (.inspect _) fun _ => .forM fun l _ =>
    .bind (.inspect _) fun _ => .bind (failsInSchema_claimPivot l _) fun _ => .update _

theorem failsInSchema_morphToMany : Resolve.FailsInSchema Pass.morphToMany.body :=
  .bind (.inspect _) fun _ => .forM fun l _ =>
    .bind (.inspect _) fun _ => .bind (failsInSchema_claimPivot l _) fun _ => .update _

theorem failsInSchema_pivotModels : Resolve.FailsInSchema Pass.pivotModels.body :=
  .bind (.modify _) fun _ => .inspect _

end Schemata.Resolution
