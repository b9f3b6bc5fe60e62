import Schemata.Proofs.Resolution.ManyToMany
import Schemata.Proofs.Resolution.Ownership
import Schemata.Proofs.Resolution.Polymorphic
import Schemata.Resolution.Pipeline

/-!
# Drafts side by side

A draft of models that no one refers to may stand beside another draft. Each relation line that names its models by their keys
finds the same models as before, and changes no others.
-/

namespace Schemata

/-- A relation line names its models by keys: its target, the model between if it names one, and the pivot model if it has one. A
`morphTo` has no target. -/
structure DeclaredRelation.NamesKeys (l : DeclaredRelation) (keys : List String) : Prop where
  target : l.kind ≠ .morphTo → ∃ key ∈ keys, l.argument? 0 = some key
  between : l.kind ∈ [.hasOneThrough, .hasManyThrough] → ∀ key ∈ l.argument? 1, key ∈ keys
  pivot : ∀ key ∈ l.pivot, key ∈ keys

instance (l : DeclaredRelation) (keys : List String) : Decidable (l.NamesKeys keys) :=
  decidable_of_iff ((l.kind ≠ .morphTo → ∃ key ∈ keys, l.argument? 0 = some key) ∧
    (l.kind ∈ [.hasOneThrough, .hasManyThrough] → ∀ key ∈ l.argument? 1, key ∈ keys) ∧ ∀ key ∈ l.pivot, key ∈ keys)
    ⟨fun ⟨target, between, pivot⟩ => ⟨target, between, pivot⟩, fun h => ⟨h.target, h.between, h.pivot⟩⟩

namespace Resolution

variable {α β : Type} {keys : List String} {d a b e : Draft} {l : DeclaredRelation} {k : String}

/-! ## Look-ups -/

/-- What is found in a draft is found in another. -/
structure Draft.Within (d b : Draft) : Prop where
  models {k m} : d.models.get? k = some m → b.models.get? k = some m
  declarations {k s} : d.declarations.get? k = some s → b.declarations.get? k = some s

/-- What is read off a draft is read off each draft in which the same is found. -/
def Steady (f : Draft → Except SchemaFault α) : Prop :=
  ∀ ⦃d b r⦄, d.Within b → f d = .ok r → f b = .ok r

namespace Steady

theorem const (x : Except SchemaFault α) : Steady fun _ => x :=
  fun _ _ _ _ h => h

theorem bind {f : Draft → Except SchemaFault α} {g : α → Draft → Except SchemaFault β} (hf : Steady f) (hg : ∀ r, Steady (g r)) :
    Steady fun d => f d >>= fun r => g r d := by
  intro d b s h hrun
  obtain ⟨r, hr, hs⟩ := bind_eq_ok.mp hrun
  exact bind_eq_ok.mpr ⟨r, hf h hr, hg r h hs⟩

theorem map {f : Draft → Except SchemaFault α} (hf : Steady f) (g : α → β) : Steady fun d => g <$> f d := by
  intro d b s h hrun
  obtain ⟨r, hr, rfl⟩ := map_eq_ok.mp hrun
  exact map_eq_ok.mpr ⟨r, hf h hr, rfl⟩

theorem forM {f : β → Draft → Except SchemaFault Unit} (hf : ∀ x, Steady (f x)) (xs : List β) :
    Steady fun d => xs.forM fun x => f x d :=
  fun _ _ _ h hrun => forM_eq_ok.mpr fun x hx => hf x h (forM_eq_ok.mp hrun x hx)

theorem mapM {f : β → Draft → Except SchemaFault α} (hf : ∀ x, Steady (f x)) (xs : List β) :
    Steady fun d => xs.mapM fun x => f x d :=
  fun _ _ _ h hrun => mapM_eq_ok.mpr ((mapM_eq_ok.mp hrun).imp fun x _ hx => hf x h hx)

theorem model (k : String) : Steady (·.model k) :=
  fun _ _ _ h hm => Draft.model_eq_ok.mpr (h.models (Draft.model_eq_ok.mp hm))

theorem declaration (k : String) : Steady (·.declaration k) :=
  fun _ _ _ h hs => Draft.declaration_eq_ok.mpr (h.declarations (Draft.declaration_eq_ok.mp hs))

end Steady

theorem steady_declaredRelation? (k name : String) : Steady (·.declaredRelation? k name) := by
  unfold Draft.declaredRelation?
  exact .bind (.declaration k) fun s => .const _

theorem steady_manyLink (l : DeclaredRelation) (target : Model) (pivot : Option String) :
    Steady fun d => manyLink d l target pivot := by
  unfold manyLink
  refine .bind (.model l.model) fun owner => ?_
  dsimp only
  split
  · exact .const _
  · exact .bind (.map (.model _) _) fun table => .const _
  · exact .const _

theorem steady_readLinkMorphs (l : DeclaredRelation) (target : String) (pivot : Option String) :
    Steady (readLinkMorphs l target pivot) := by
  unfold readLinkMorphs
  have hrest : ∀ name, Steady fun d => do
      let table ← pivot.elim (pure (Convention.morphTable name)) fun key => (·.table) <$> d.model key
      return (⟨target, name, pivot, table, l.withPivot⟩ : MorphToMany) := by
    intro name
    cases pivot with
    | none => exact .const _
    | some key => exact .bind (.map (.model key) _) fun table => .const _
  cases l.argument? 1 <;> cases pivot
  · exact .bind (.map (.model _) _) hrest
  · exact .bind (.map (.model _) _) hrest
  · exact hrest _
  · exact hrest _

theorem steady_checkLink (l : DeclaredRelation) (source target : String) : Steady fun d => checkLink d l source target := by
  unfold checkLink
  exact .bind (.model source) fun m => .const _

theorem steady_checkPivot (owner : String) (r : Relation) : Steady fun d => checkPivot d owner r := by
  unfold checkPivot
  split
  · exact .const _
  · exact .bind (.model _) fun pivot => .const _

theorem steady_followPath (key path current : String) (segments : List String) :
    Steady fun d => followPath d key path current segments := by
  induction segments generalizing current with
  | nil => exact .const _
  | cons segment rest ih =>
    unfold followPath
    refine .bind (.model current) fun m => ?_
    split
    · exact .const _
    · split
      · exact ih _
      · exact .const _

theorem steady_checkEager (key : String) (paths : List String) : Steady fun d => checkEager d key paths :=
  .forM (fun path => steady_followPath key path key _) paths

theorem steady_pivotTable? (owner : Model) (r : Relation) : Steady fun d => pivotTable? d owner r := by
  unfold pivotTable?
  split
  · exact .const _
  · split
    · exact .bind (.model _) fun target => .const _
    · exact .bind (.model _) fun related => .const _
    · exact .bind (.model _) fun parent => .const _
    · exact .const _

/-! ## Side by side -/

/-- A draft has what one draft has, and after it the models of another, which have no relations. The relation lines of the former
name their models by keys. -/
structure Draft.Beside (keys : List String) (d a b : Draft) : Prop where
  settings : b.settings = d.settings
  tables : b.schema.migrations = d.schema.migrations
  declarations : b.declarations.Joins d.declarations a.declarations
  models : b.models.Joins d.models a.models
  migrations : b.migrations.Encloses d.migrations a.migrations
  keyed : b.Keyed
  known : d.models.keys = keys
  declared : d.declarations.keys = keys
  added : a.models.keys = a.declarations.keys
  exact : ∀ l, d.Declares l → l.NamesKeys keys
  noLines : ∀ k, a.relationLines k = []
  noRelations : ∀ m ∈ a.models.values, m.relations = .empty

namespace Draft.Beside

theorem left (h : d.Beside keys a b) : d.Within b where
  models hm := h.models.get?_eq_some_iff.mpr (.inl hm)
  declarations hs := h.declarations.get?_eq_some_iff.mpr (.inl hs)

theorem right (h : d.Beside keys a b) : a.Within b where
  models hm := h.models.get?_eq_some_iff.mpr (.inr hm)
  declarations hs := h.declarations.get?_eq_some_iff.mpr (.inr hs)

theorem keyed_left (h : d.Beside keys a b) : d.Keyed :=
  fun k m hm => h.keyed k m (h.left.models hm)

theorem findModel? (h : d.Beside keys a b) (hk : k ∈ keys) : d.findModel? k = some k ∧ b.findModel? k = some k := by
  rw [← h.known] at hk
  refine ⟨findModel?_of_mem hk, findModel?_of_mem ?_⟩
  rw [h.models.keys]
  exact List.mem_append_left _ hk

/-- The target of a line that names it by its key. -/
theorem target (h : d.Beside keys a b) (hl : l.NamesKeys keys) (hk : l.kind ≠ .morphTo) : b.target l = d.target l := by
  obtain ⟨key, hkey, harg⟩ := hl.target hk
  unfold Draft.target resolveReference
  rw [harg]
  dsimp only
  rw [(h.findModel? hkey).1, (h.findModel? hkey).2]

theorem belongsTo?_right (h : d.Beside keys a b) {m : Model} (hm : a.models.get? k = some m) (target : String) :
    m.belongsTo? target = none := by
  have hempty := h.noRelations m (OrderedMap.mem_values_iff.mpr ⟨k, hm⟩)
  unfold Model.belongsTo? Model.belongsToRelations
  rw [hempty]
  rfl

/-! ### Changes -/

theorem modifyModel (h : d.Beside keys a b) (hk : k ∈ keys) {f : Model → Model} (hf : ∀ m, (f m).key = m.key) :
    (d.modifyModel k f).Beside keys a (b.modifyModel k f) where
  settings := h.settings
  tables := h.tables
  declarations := h.declarations
  models := h.models.modify_left (h.known ▸ hk) f
  migrations := h.migrations
  keyed := h.keyed.modifyModel hf
  known := (OrderedMap.keys_modify ..).trans h.known
  declared := h.declared
  added := h.added
  exact := h.exact
  noLines := h.noLines
  noRelations := h.noRelations

theorem modifyModel_right (h : d.Beside keys a b) (hk : k ∈ a.models.keys) {f : Model → Model}
    (hf : ∀ m, (f m).key = m.key ∧ (f m).relations = m.relations) :
    d.Beside keys (a.modifyModel k f) (b.modifyModel k f) where
  settings := h.settings
  tables := h.tables
  declarations := h.declarations
  models := h.models.modify_right hk f
  migrations := h.migrations
  keyed := h.keyed.modifyModel fun m => (hf m).1
  known := h.known
  declared := h.declared
  added := (OrderedMap.keys_modify ..).trans h.added
  exact := h.exact
  noLines := h.noLines
  noRelations := by
    intro n hn
    obtain ⟨j, hj⟩ := OrderedMap.mem_values_iff.mp hn
    rw [get?_modifyModel] at hj
    split at hj
    · obtain ⟨m, hm, rfl⟩ := Option.map_eq_some_iff.mp hj
      exact (hf m).2.trans (h.noRelations m (OrderedMap.mem_values_iff.mpr ⟨j, hm⟩))
    · exact h.noRelations n (OrderedMap.mem_values_iff.mpr ⟨j, hj⟩)

theorem resolveRelation (h : d.Beside keys a b) (hl : l.model ∈ keys) (link : Link) :
    (d.resolveRelation l link).Beside keys a (b.resolveRelation l link) :=
  h.modifyModel hl fun _ => rfl

end Draft.Beside

/-! ## Steps -/

/-- Where a step goes from a draft, it goes from a related one in the same way, to a related draft. -/
def Simulates (R : Draft → Draft → Prop) (x : Resolve α) : Prop :=
  ∀ ⦃d b r e⦄, R d b → x d = .ok r e → ∃ c, x b = .ok r c ∧ R e c

namespace Simulates

variable {R : Draft → Draft → Prop}

theorem bind {x : Resolve α} {f : α → Resolve β} (hx : Simulates R x) (hf : ∀ r, Simulates R (f r)) : Simulates R (x >>= f) := by
  intro d b s e hR h
  obtain ⟨r, c, hc, h⟩ := Resolve.bind_run_ok.mp h
  obtain ⟨c', hc', hR⟩ := hx hR hc
  obtain ⟨e', he', hR⟩ := hf r hR h
  exact ⟨e', Resolve.bind_run_ok.mpr ⟨r, c', hc', he'⟩, hR⟩

theorem pure (r : α) : Simulates R (pure r : Resolve α) := by
  intro d b s e hR h
  obtain ⟨rfl, rfl⟩ := Resolve.pure_run_ok.mp h
  exact ⟨b, rfl, hR⟩

theorem inspect {f : Draft → Except SchemaFault α} (hf : ∀ ⦃d b r⦄, R d b → f d = .ok r → f b = .ok r) :
    Simulates R (Resolve.inspect f) := by
  intro d b r e hR h
  obtain ⟨hr, rfl⟩ := Resolve.inspect_run_ok.mp h
  exact ⟨b, Resolve.inspect_run_ok.mpr ⟨hf hR hr, rfl⟩, hR⟩

theorem update {f : Draft → Except SchemaFault Draft} (hf : ∀ ⦃d b e⦄, R d b → f d = .ok e → ∃ c, f b = .ok c ∧ R e c) :
    Simulates R (Resolve.update f) := by
  intro d b _ e hR h
  obtain ⟨c, hc, hR⟩ := hf hR (Resolve.update_run_ok.mp h)
  exact ⟨c, Resolve.update_run_ok.mpr hc, hR⟩

theorem modify {f : Draft → Draft} (hf : ∀ ⦃d b⦄, R d b → R (f d) (f b)) : Simulates R (modify f : Resolve Unit) := by
  intro d b _ e hR h
  obtain rfl := Resolve.modify_run_ok.mp h
  exact ⟨f b, rfl, hf hR⟩

theorem forM {f : α → Resolve Unit} {xs : List α} (hf : ∀ x ∈ xs, Simulates R (f x)) : Simulates R (xs.forM f) := by
  induction xs with
  | nil => exact pure ()
  | cons x rest ih =>
    exact bind (hf x List.mem_cons_self) fun _ => ih fun y hy => hf y (List.mem_cons_of_mem x hy)

end Simulates

/-- A step does beside another draft what it does alone. -/
abbrev Frames (keys : List String) (a : Draft) (x : Resolve α) : Prop :=
  Simulates (fun d b => d.Beside keys a b) x

/-! ### Turns of relation lines -/

section

variable (hl : l.NamesKeys keys) (hm : l.model ∈ keys)
include hl hm

theorem frames_resolveBelongsTo (hk : l.kind ≠ .morphTo) : Frames keys a (.update (resolveBelongsTo l)) := by
  refine .update fun d b e h hrun => ?_
  obtain ⟨key, target, column, hkey, htarget, hcolumn, rfl⟩ := resolveBelongsTo_ok_iff.mp hrun
  have hplaced : (d.modifyModel l.model (placeKey l.name column)).Beside keys a (b.modifyModel l.model (placeKey l.name column)) :=
    h.modifyModel hm fun m => (sameIdentity_placeKey l.name column m).key
  exact ⟨_, resolveBelongsTo_ok_iff.mpr
    ⟨key, target, column, (h.target hl hk).trans hkey, h.left.models htarget, hcolumn, rfl⟩, hplaced.resolveRelation hm _⟩

theorem frames_resolveHaving (hk : l.kind ≠ .morphTo) : Frames keys a (.update (resolveHaving l)) := by
  refine .update fun d b e h hrun => ?_
  obtain ⟨key, target, link, hkey, htarget, hlink, rfl⟩ := resolveHaving_ok_iff.mp hrun
  exact ⟨_, resolveHaving_ok_iff.mpr
    ⟨key, target, link, (h.target hl hk).trans hkey, h.left.models htarget, hlink, rfl⟩, h.resolveRelation hm _⟩

omit hm in
/-- The models between are found among those that belong to others, which the added models do not. -/
theorem Draft.Beside.throughPair (h : d.Beside keys a b) (hk : l.kind ∈ [.hasOneThrough, .hasManyThrough])
    {pair : String × String} (hp : Resolution.throughPair d l = .ok pair) : Resolution.throughPair b l = .ok pair := by
  have hkind : l.kind ≠ .morphTo := by rintro heq; simp [heq] at hk
  have hbetween : ∀ {target through}, intermediate d l target = .ok through → intermediate b l target = .ok through := by
    intro target through hi
    obtain ⟨m, hm, hi⟩ := bind_eq_ok.mp hi
    refine bind_eq_ok.mpr ⟨m, Steady.model _ h.left hm, ?_⟩
    have hany : ∀ c, ((b.models.get? c).any fun m => (m.belongsTo? l.model).isSome) =
        (d.models.get? c).any fun m => (m.belongsTo? l.model).isSome := by
      intro c
      cases hb : b.models.get? c with
      | none =>
        cases hd : d.models.get? c with
        | none => rfl
        | some o => exact absurd (h.left.models hd) (by simp [hb])
      | some o =>
        rcases h.models.get?_eq_some_iff.mp hb with hd | ha
        · rw [hd]
        · have hnone : d.models.get? c = none := OrderedMap.get?_eq_none_iff.mpr
            (h.models.notMem_left (OrderedMap.mem_keys_iff.mpr ⟨o, ha⟩))
          rw [hnone, Option.any_some, h.belongsTo?_right ha]
          rfl
    simp only [hany]
    exact hi
  obtain ⟨key, _, harg⟩ := hl.target hkind
  unfold Resolution.throughPair at hp ⊢
  rw [h.target hl hkind]
  rw [harg] at hp ⊢
  dsimp only at hp ⊢
  cases hthrough : l.argument? 1 with
  | some through =>
    rw [hthrough] at hp
    obtain ⟨hd, hb⟩ := h.findModel? (hl.between hk through hthrough)
    unfold Draft.resolveReference at hp ⊢
    dsimp only at hp ⊢
    rw [hd] at hp
    rw [hb]
    exact hp
  | none =>
    rw [hthrough] at hp
    obtain ⟨target, htarget, hp⟩ := bind_eq_ok.mp hp
    obtain ⟨through, hi, hp⟩ := bind_eq_ok.mp hp
    exact bind_eq_ok.mpr ⟨target, htarget, bind_eq_ok.mpr ⟨through, hbetween hi, hp⟩⟩

theorem frames_resolveThrough (hk : l.kind ∈ [.hasOneThrough, .hasManyThrough]) :
    Frames keys a (.update (resolveThrough l)) := by
  refine .update fun d b e h hrun => ?_
  obtain ⟨link, hpair, hfirst, hsecond, hchain, rfl⟩ := resolveThrough_ok_iff.mp hrun
  have hchain' : l.argument? 2 = none → l.argument? 3 = none →
      checkLink b l link.model link.through = .ok () ∧ checkLink b l link.through l.model = .ok () := fun h₂ h₃ =>
    (hchain h₂ h₃).imp (steady_checkLink l _ _ h.left) (steady_checkLink l _ _ h.left)
  exact ⟨_, resolveThrough_ok_iff.mpr ⟨link, h.throughPair hl hk hpair, hfirst, hsecond, hchain', rfl⟩, h.resolveRelation hm _⟩

omit hm in
theorem Draft.Beside.pivotModel? (h : d.Beside keys a b) {pivot : Option String} (hp : Resolution.pivotModel? l d = .ok pivot) :
    Resolution.pivotModel? l b = .ok pivot ∧ ∀ key, pivot = some key → key ∈ keys := by
  unfold Resolution.pivotModel? at hp ⊢
  cases hl' : l.pivot with
  | none =>
    rw [hl'] at hp
    obtain rfl := pure_eq_ok.mp hp
    exact ⟨rfl, nofun⟩
  | some reference =>
    rw [hl'] at hp
    dsimp only at hp ⊢
    have hkey := hl.pivot reference hl'
    rw [(h.findModel? hkey).1] at hp
    obtain rfl := pure_eq_ok.mp hp
    rw [(h.findModel? hkey).2]
    exact ⟨rfl, fun key heq => Option.some_inj.mp heq ▸ hkey⟩

omit hm in
/-- What follows the claim of a pivot model may count on the model. -/
theorem frames_claimPivot_bind {type : ModelType} {f : Option String → Resolve Unit}
    (hf : ∀ pivot : Option String, (∀ key, pivot = some key → key ∈ keys) → Frames keys a (f pivot)) :
    Frames keys a (claimPivot l type >>= f) := by
  intro d b _ e h hrun
  obtain ⟨pivot, c, hclaim, hrun⟩ := Resolve.bind_run_ok.mp hrun
  obtain ⟨hp, rfl⟩ := claimPivot_ok hclaim
  obtain ⟨hb, hkeys⟩ := h.pivotModel? hl hp
  have hclaimed : (pivot.elim d fun key => d.modifyModel key ({ · with type })).Beside keys a
      (pivot.elim b fun key => b.modifyModel key ({ · with type })) := by
    cases pivot with
    | none => exact h
    | some key => exact h.modifyModel (hkeys key rfl) fun _ => rfl
  obtain ⟨e', he', hbeside⟩ := hf pivot hkeys hclaimed hrun
  exact ⟨e', Resolve.bind_run_ok.mpr ⟨pivot, _, claimPivot_of_ok hb type, he'⟩, hbeside⟩

theorem frames_resolveMany (hk : l.kind ≠ .morphTo) : Frames keys a (resolveMany l) := by
  refine .bind (.inspect fun d b key h hkey => (h.target hl hk).trans hkey) fun key =>
    frames_claimPivot_bind hl fun pivot _ => .update fun d b e h hrun => ?_
  obtain ⟨target, htarget, hrun⟩ := bind_eq_ok.mp hrun
  obtain ⟨link, hlink, hrun⟩ := bind_eq_ok.mp hrun
  obtain rfl := pure_eq_ok.mp hrun
  exact ⟨_, bind_eq_ok.mpr ⟨target, Steady.model _ h.left htarget,
    bind_eq_ok.mpr ⟨link, steady_manyLink l target pivot h.left hlink, rfl⟩⟩, h.resolveRelation hm _⟩

omit hl in
theorem frames_resolveMorphTo : Frames keys a (modify (resolveMorphTo l) : Resolve Unit) :=
  .modify fun _ _ h => h.resolveRelation hm _

theorem frames_resolveMorphOne (hk : l.kind ≠ .morphTo) : Frames keys a (.update (resolveMorphOne l)) := by
  refine .update fun d b e h hrun => ?_
  obtain ⟨link, target, hkey, htarget, hbound, rfl⟩ := resolveMorphOne_ok_iff.mp hrun
  have hmem : link.model ∈ keys := h.known ▸ OrderedMap.mem_keys_iff.mpr ⟨target, htarget⟩
  have hpointed : (d.modifyRelation link.model link.relationKey (Relation.mapMorphTo (·.addModel l.model))).Beside keys a
      (b.modifyRelation link.model link.relationKey (Relation.mapMorphTo (·.addModel l.model))) :=
    h.modifyModel hmem fun _ => rfl
  exact ⟨_, resolveMorphOne_ok_iff.mpr
    ⟨link, target, (h.target hl hk).trans hkey, h.left.models htarget, hbound, rfl⟩, hpointed.resolveRelation hm _⟩

theorem frames_resolveMorphs (hk : l.kind ≠ .morphTo) : Frames keys a (resolveMorphs l) := by
  refine .bind (.inspect fun d b key h hkey => (h.target hl hk).trans hkey) fun target =>
    frames_claimPivot_bind hl fun pivot hpivot => .update fun d b e h hrun => ?_
  rw [linkMorphs_eq] at hrun
  obtain ⟨link, hlink, rfl⟩ := map_eq_ok.mp hrun
  have hjoined : (pivot.elim d fun key => d.modifyModel key (addParent link.relationKey (morphSides l target).1)).Beside keys a
      (pivot.elim b fun key => b.modifyModel key (addParent link.relationKey (morphSides l target).1)) := by
    cases pivot with
    | none => exact h
    | some key => exact h.modifyModel (hpivot key rfl) fun m => key_addParent _ _ m
  exact ⟨_, (linkMorphs_eq ..).trans (map_eq_ok.mpr ⟨link, steady_readLinkMorphs l target pivot h.left hlink, rfl⟩),
    hjoined.resolveRelation hm _⟩

end

end Resolution
end Schemata
