import Schemata.Proofs.Resolution.Arguments
import Schemata.Proofs.Resolution.BesideTables
import Schemata.Proofs.Resolution.Footprints
import Schemata.Proofs.Resolution.Targets

/-!
# A declaration in another form

When one model is declared in another form, the passes come to drafts that agree, as far as the two forms do. Whether the key of a
model was added matters to pivot models alone.
-/

namespace Schemata

/-- A schema in which one model is declared otherwise. -/
def SchemaDeclaration.redeclared (schema : SchemaDeclaration) (key : String) (value : Yaml) : SchemaDeclaration :=
  { schema with models := schema.models.modify key fun _ => value }

namespace Resolution

variable {settings : Settings} {schema : SchemaDeclaration} {d e : Draft} {key : String} {value : Yaml} {s s' : ModelDeclaration}
  {l : DeclaredRelation}

/-! ## Shells -/

section

variable {read : List (String × ModelDeclaration)} {shells : List Model} {f : Model → Model}

/-- A key is read once. -/
theorem eq_of_mem_read (hr : schema.models.entries.mapM (fun (key, value) => return (key, ← modelDeclaration key value)) = .ok read)
    (hs : (OrderedMap.ofList read).get? key = some s) {x : String × ModelDeclaration} (hx : x ∈ read) (hk : x.1 = key) : x.2 = s := by
  have hlookup {t : ModelDeclaration} : read.lookup key = some t ↔ (key, t) ∈ read :=
    OrderedMap.lookup_eq_some_iff_mem (nodup_read hr)
  rw [OrderedMap.get?_eq_some_iff, OrderedMap.entries_ofList (nodup_read hr)] at hs
  obtain rfl := hk
  exact Option.some_inj.mp ((hlookup.mpr hx).symm.trans (hlookup.mpr hs))

theorem read_redeclared (hr : schema.models.entries.mapM (fun (key, value) => return (key, ← modelDeclaration key value)) = .ok read)
    (hread : modelDeclaration key value = .ok s') :
    (schema.redeclared key value).models.entries.mapM (fun (key, value) => return (key, ← modelDeclaration key value)) =
      .ok (read.map fun x => (x.1, if x.1 = key then s' else x.2)) := by
  refine mapM_eq_ok.mpr (List.forall₂_map_left_iff.mpr (List.forall₂_map_right_iff.mpr ((mapM_keyed_ok hr).imp ?_)))
  rintro ⟨k, y⟩ ⟨_, t⟩ ⟨rfl, hx⟩
  dsimp only at hx ⊢
  split
  · rename_i hk
    exact bind_eq_ok.mpr ⟨s', hk ▸ hread, rfl⟩
  · exact bind_eq_ok.mpr ⟨t, hx, rfl⟩

theorem made_redeclared (hmade : read.mapM (fun x => modelShell settings [] x.1 x.2) = .ok shells)
    (hread : ∀ x ∈ read, x.1 = key → x.2 = s)
    (hshell : ∀ {m}, modelShell settings [] key s = .ok m → modelShell settings [] key s' = .ok (f m)) :
    (read.map fun x => (x.1, if x.1 = key then s' else x.2)).mapM (fun x => modelShell settings [] x.1 x.2) =
      .ok (shells.map fun m => if m.key = key then f m else m) := by
  have hpairs := List.forall₂_iff_zip.mp (mapM_eq_ok.mp hmade)
  refine mapM_eq_ok.mpr (List.forall₂_map_left_iff.mpr (List.forall₂_map_right_iff.mpr
    (List.forall₂_iff_zip.mpr ⟨hpairs.1, fun {x m} hxm => ?_⟩)))
  have hx := hpairs.2 hxm
  rw [(modelShell_ok hx).1.key]
  dsimp only
  split
  · rename_i hk
    obtain rfl := hread x (List.of_mem_zip hxm).1 hk
    exact hk ▸ hshell (hk ▸ hx)
  · exact hx

variable (hf : ∀ m, (f m).key = m.key ∧ (f m).className = m.className ∧ (f m).table = m.table)
include hf

theorem pairwise_mayMeet_redeclared (hp : shells.Pairwise MayMeet) :
    (shells.map fun m => if m.key = key then f m else m).Pairwise MayMeet := by
  have hsame : ∀ o : Model, (if o.key = key then f o else o).className = o.className ∧
      (if o.key = key then f o else o).table = o.table := by
    intro o
    split
    · exact (hf o).2
    · exact ⟨rfl, rfl⟩
  refine List.pairwise_map.mpr (hp.imp fun {m n} hmn => ?_)
  unfold MayMeet
  rw [(hsame m).1, (hsame n).1, (hsame m).2, (hsame n).2]
  exact hmn

theorem modify_ofList_shells : (OrderedMap.ofList (shells.map fun m => (m.key, m))).modify key f =
    .ofList ((shells.map fun m => if m.key = key then f m else m).map fun m => (m.key, m)) := by
  refine (OrderedMap.mapEntries_ofList _ _).trans (congrArg OrderedMap.ofList ?_)
  rw [List.map_map, List.map_map]
  refine List.map_congr_left fun m _ => ?_
  dsimp only [Function.comp]
  split
  · rw [(hf m).1]
  · rfl

end

/-- Only the shell of the model that is declared otherwise may change, and nothing in it by which it meets the others. -/
theorem completes_shells_redeclared {f : Model → Model} (h : Completes [.quickModels, .modelShells] (.start settings schema) d)
    (hs : d.declarations.get? key = some s) (hread : modelDeclaration key value = .ok s')
    (hshell : ∀ {m}, modelShell settings [] key s = .ok m → modelShell settings [] key s' = .ok (f m))
    (hf : ∀ m, (f m).key = m.key ∧ (f m).className = m.className ∧ (f m).table = m.table) :
    Completes [.quickModels, .modelShells] (.start settings (schema.redeclared key value))
      { d with
        schema := schema.redeclared key value
        declarations := d.declarations.modify key fun _ => s'
        models := d.models.modify key f } := by
  obtain ⟨read, shells, hr, hmade, hp, rfl⟩ := completes_shells_iff.mp h
  have hdeclarations : (OrderedMap.ofList read).modify key (fun _ => s') =
      .ofList (read.map fun x => (x.1, if x.1 = key then s' else x.2)) := OrderedMap.mapEntries_ofList _ _
  refine completes_shells_iff.mpr ⟨_, _, read_redeclared hr hread,
    made_redeclared hmade (fun x hx hk => eq_of_mem_read hr hs hx hk) hshell, pairwise_mayMeet_redeclared hf hp, ?_⟩
  dsimp only
  rw [hdeclarations, modify_ofList_shells hf]
  rfl

/-! ## Drafts that agree -/

section

variable {f : ModelDeclaration → ModelDeclaration} {g : Model → Model}

theorem ofLine_congr {k : String} (h : linesOf k s' = linesOf k s) (name : String) :
    Shorthand.Call.ofLine (s'.columns.get? name).join = Shorthand.Call.ofLine (s.columns.get? name).join := by
  cases hs : (s.columns.get? name).join with
  | none =>
    cases hs' : (s'.columns.get? name).join with
    | none => rfl
    | some text =>
      obtain ⟨_, heq, _⟩ := mem_linesOf_iff.mp (h ▸ mem_linesOf_iff.mpr ⟨text, hs', rfl⟩)
      exact absurd (hs.symm.trans heq) (by simp)
  | some text =>
    obtain ⟨_, hs', heq⟩ := mem_linesOf_iff.mp (h.symm ▸ mem_linesOf_iff.mpr ⟨text, hs, rfl⟩)
    rw [hs']
    exact heq.symm

/-- A declaration of the same lines, apart from absent ones, makes a draft that agrees as far as the declaration and the model do. -/
theorem agrees_modify {S : String → Part → Prop} (hschema : e.schema.migrations = d.schema.migrations)
    (hsettings : e.settings = d.settings) (hmigrations : e.migrations = d.migrations)
    (hdeclarations : e.declarations = d.declarations.modify key f) (hmodels : e.models = d.models.modify key g)
    (hlines : ∀ s, d.declarations.get? key = some s → linesOf key (f s) = linesOf key s)
    (hdeclared : S key .declaration → ∀ s, unadded (f s) = unadded s)
    (hmodel : ∀ m, d.models.get? key = some m → m.Agrees (S key) (g m)) : d.Agrees S e where
  settings := hsettings
  tables := hschema
  lines := by
    have hall : e.lines = d.lines := by
      change e.declarations.entries.flatMap (fun x => linesOf x.1 x.2) = d.declarations.entries.flatMap fun x => linesOf x.1 x.2
      rw [hdeclarations]
      unfold OrderedMap.modify OrderedMap.mapEntries
      rw [List.flatMap_map]
      refine List.flatMap_congr fun x hx => ?_
      dsimp only
      split
      · rename_i hk
        rw [hk, hlines x.2 (hk ▸ OrderedMap.get?_eq_some_iff.mpr hx)]
      · rfl
    unfold Draft.relational
    rw [hall]
  line k name := by
    unfold Draft.declaredRelation? Draft.declaration
    rw [hdeclarations, OrderedMap.get?_modify]
    by_cases hk : k = key
    · rw [if_pos hk, hk]
      cases hs : d.declarations.get? key with
      | none => rfl
      | some s =>
        change (if _ then _ else _) = (if _ then _ else _)
        rw [ofLine_congr (hlines s hs)]
    · rw [if_neg hk]
  declared := by rw [hdeclarations, OrderedMap.keys_modify]
  declarations {k} hS := by
    rw [hdeclarations, OrderedMap.get?_modify]
    split
    · rename_i hk
      subst hk
      rw [Option.map_map]
      exact congrArg (Option.map · _) (funext (hdeclared hS))
    · rfl
  keys := by rw [hmodels, OrderedMap.keys_modify]
  models {k m n} hm hn := by
    rw [hmodels, OrderedMap.get?_modify, hm] at hn
    split at hn
    · rename_i hk
      subst hk
      exact Option.some_inj.mp hn ▸ hmodel m hm
    · exact Option.some_inj.mp hn ▸ .refl _ m
  migrations := hmigrations

end

/-! ## Keys that are added -/

/-- All of a draft but whether the key of one model was added. -/
def ButAutoId (key k : String) (p : Part) : Prop :=
  ¬(k = key ∧ p = .autoId)

theorem butAutoId_of_part (key k : String) (p : Part) (hp : p ≠ .autoId) : ButAutoId key k p :=
  fun h => hp h.2

theorem butAutoId_of_key {k : String} (hk : k ≠ key) (p : Part) : ButAutoId key k p :=
  fun h => hk h.1

theorem agrees_withAutoId (m : Model) (on : Bool) : m.Agrees (ButAutoId key key) { m with autoId := on } := by
  refine ⟨rfl, rfl, fun {p} hp => ?_⟩
  have hsame := Part.Same.refl p m
  cases p with
  | autoId => exact absurd ⟨rfl, rfl⟩ hp
  | _ => exact hsame

theorem completes_shells_unadded (h : Completes [.quickModels, .modelShells] (.start settings schema) d)
    (hs : d.declarations.get? key = some s) (hread : modelDeclaration key value = .ok (unadded s)) :
    ∃ e, Completes [.quickModels, .modelShells] (.start settings (schema.redeclared key value)) e ∧
      e.models = d.models.modify key ({ · with autoId := false }) ∧ d.Agrees (ButAutoId key) e := by
  have hshells := completes_shells_redeclared (f := ({ · with autoId := false })) h hs hread
    (fun hm => by
      obtain ⟨type, htype, hm⟩ := bind_eq_ok.mp hm
      rw [← pure_eq_ok.mp hm]
      exact bind_eq_ok.mpr ⟨type, htype, rfl⟩) fun _ => ⟨rfl, rfl, rfl⟩
  have hmodify : (d.declarations.modify key fun _ => unadded s) = d.declarations.modify key unadded := by
    refine OrderedMap.mapEntries_congr fun k s' hs' => ?_
    split
    · rename_i hk
      rw [Option.some_inj.mp (hs'.symm.trans (hk ▸ hs))]
    · rfl
  have hrest := (shelled_of_completes h).1
  exact ⟨_, hshells, rfl, agrees_modify (by rw [hrest]; rfl) rfl rfl hmodify rfl (fun _ _ => rfl) (fun _ _ => rfl)
    fun m _ => agrees_withAutoId m false⟩

section

variable (h : d.Agrees (ButAutoId key) e)
include h

/-- Whether the key of a model was added does not matter to a model that is no pivot model. -/
theorem sameGivers_unadded (hplain : ∀ m, d.models.get? key = some m → m.isPivot = false) : d.SameGivers e := by
  intro k m n hm hn
  have hmn := h.models hm hn
  have hpivot : n.isPivot = m.isPivot := hmn.same (butAutoId_of_part key k .pivot (by simp))
  unfold GivesUpKey
  rw [hpivot]
  by_cases hk : k = key
  · obtain rfl := hk
    simp [hplain m hm]
  · have hauto : n.autoId = m.autoId := hmn.same (butAutoId_of_key hk .autoId)
    rw [hauto]

theorem models_eq_of_unadded (hauto : ∀ m n, d.models.get? key = some m → e.models.get? key = some n → n.autoId = false) :
    e.models = d.models.modify key ({ · with autoId := false }) := by
  refine OrderedMap.eq_of_get? ?_ fun k m n hm hn => ?_
  · rw [OrderedMap.keys_modify, h.keys]
  obtain ⟨m₀, hm₀, hmn⟩ := h.symm.exists_model hn
  rw [OrderedMap.get?_modify, hm₀] at hm
  rw [hmn.symm.eq_of_all (butAutoId_of_part key k)]
  split at hm
  · rename_i hk
    obtain rfl := Option.some_inj.mp hm
    rw [hauto m₀ n (hk ▸ hm₀) (hk ▸ hn)]
  · rename_i hk
    obtain rfl := Option.some_inj.mp hm
    have hsame : n.autoId = m₀.autoId := hmn.symm.same (butAutoId_of_key hk .autoId)
    rw [hsame]

end

/-! ## Models that are no pivots -/

/-- A relation line names the model of a key as its pivot model. -/
def Draft.NamesPivot (d : Draft) (key : String) : Prop :=
  ∃ l reference, d.Declares l ∧ l.pivot = some reference ∧ d.findModel? reference = some key

theorem Draft.NamesPivot.back {stages : List Stage} (h : e.NamesPivot key) (he : Edited stages d e) : d.NamesPivot key := by
  obtain ⟨l, reference, hl, hp, hf⟩ := h
  exact ⟨l, reference, hl.back he, hp, he.findModel? ▸ hf⟩

/-- The type of the model of a key. -/
def Draft.typeOf? (d : Draft) (key : String) : Option ModelType :=
  (d.models.get? key).map Model.type

theorem namesPivot_of_pivotModel? (hl : d.Declares l) (h : pivotModel? l d = .ok (some key)) : d.NamesPivot key := by
  unfold pivotModel? at h
  split at h
  · exact absurd (pure_eq_ok.mp h) (by simp)
  · rename_i reference hp
    split at h
    · rename_i hf
      exact ⟨l, reference, hl, hp, Option.some_inj.mp (pure_eq_ok.mp h) ▸ hf⟩
    · exact absurd h throw_ne_ok

theorem typeOf?_mapModels {w : String → Model → Model} (hw : ∀ m, (w key m).type = m.type) :
    (d.mapModels w).typeOf? key = d.typeOf? key := by
  unfold Draft.typeOf?
  rw [Draft.get?_mapModels]
  cases d.models.get? key with
  | none => rfl
  | some m => exact congrArg some (hw m)

theorem type_turned {link : Link} {pivot : Option String} {type : ModelType} (hne : pivot ≠ some key) (m : Model) :
    (turned l link pivot type key m).type = m.type := by
  unfold turned fillPlace claimType
  rw [if_neg hne]
  split <;> rfl

theorem typeOf?_resolveMany (hl : d.Declares l) (hnot : ¬d.NamesPivot key) (h : resolveMany l d = .ok () e) :
    e.typeOf? key = d.typeOf? key := by
  obtain ⟨r, hr, rfl⟩ := outward_resolveMany.run.mp h
  obtain ⟨_, _, hr⟩ := bind_eq_ok.mp hr
  obtain ⟨pivot, hpivot, hr⟩ := bind_eq_ok.mp hr
  obtain ⟨link, _, hr⟩ := bind_eq_ok.mp hr
  obtain rfl := pure_eq_ok.mp hr
  refine typeOf?_mapModels fun m => type_turned ?_ m
  rintro rfl
  exact hnot (namesPivot_of_pivotModel? hl hpivot)

theorem typeOf?_resolveMorphs (hl : d.Declares l) (hnot : ¬d.NamesPivot key) (h : resolveMorphs l d = .ok () e) :
    e.typeOf? key = d.typeOf? key := by
  obtain ⟨link, hr, rfl⟩ := outward_resolveMorphs.run.mp h
  obtain ⟨_, _, hr⟩ := bind_eq_ok.mp hr
  obtain ⟨pivot, hpivot, hr⟩ := bind_eq_ok.mp hr
  obtain ⟨_, rfl, _⟩ := readLinkMorphs_ok hr
  have hne : link.pivot ≠ some key := by
    intro heq
    rw [heq] at hpivot
    exact hnot (namesPivot_of_pivotModel? hl hpivot)
  refine typeOf?_mapModels fun m => ?_
  unfold fillPlace joinPivot claimType
  rw [if_neg hne, if_neg hne]
  split <;> rfl

theorem typeOf?_of_edited {stages : List Stage} (h : Edited stages d e) (hs : .belongsToMany ∉ stages ∧ .morphToMany ∉ stages) :
    e.typeOf? key = d.typeOf? key := by
  unfold Draft.typeOf?
  cases hm : d.models.get? key with
  | none =>
    have hk : key ∉ e.models.keys := h.keys ▸ OrderedMap.get?_eq_none_iff.mp hm
    rw [OrderedMap.get?_eq_none_iff.mpr hk]
  | some m =>
    obtain ⟨n, hn⟩ := OrderedMap.mem_keys_iff.mp (h.keys ▸ OrderedMap.mem_keys_iff.mpr ⟨m, hm⟩)
    rw [hn]
    exact congrArg some (h.type hs hm hn)

theorem typeOf?_belongsToMany (hd : d.Sound) (hnot : ¬d.NamesPivot key) (h : Pass.belongsToMany.body d = .ok () e) :
    e.typeOf? key = d.typeOf? key :=
  holds_of_lines (P := fun c => c.typeOf? key = d.typeOf? key) Draft.lists_of_declaredRelations
    (fun hne hf => resolveMany_apart hne hf)
    (fun hc hp hl hk _ hf => ⟨resolveMany_edited (hd.edited hc) (hl.along hc) (List.mem_singleton.mp hk) hf,
      (typeOf?_resolveMany (hl.along hc) (fun h => hnot (h.back hc)) hf).trans hp⟩) h rfl

theorem typeOf?_morphToMany (hd : d.Sound) (hnot : ¬d.NamesPivot key) (h : Pass.morphToMany.body d = .ok () e) :
    e.typeOf? key = d.typeOf? key :=
  holds_of_lines (P := fun c => c.typeOf? key = d.typeOf? key) (Draft.lists_of_declaredRelationsOf (by decide))
    (fun hne hf => resolveMorphs_apart hne hf)
    (fun hc hp hl hk _ hf => ⟨resolveMorphs_edited (hd.edited hc) (hl.along hc) hk hf,
      (typeOf?_resolveMorphs (hl.along hc) (fun h => hnot (h.back hc)) hf).trans hp⟩) h rfl

/-- The shell of a model has the type that is declared. -/
theorem declaredType_of_shells (h : Completes [.quickModels, .modelShells] (.start settings schema) d)
    (hs : d.declarations.get? key = some s) {m : Model} (hm : d.models.get? key = some m) : declaredType key s = .ok m.type := by
  obtain ⟨read, shells, hr, hmade, _, rfl⟩ := completes_shells_iff.mp h
  rw [OrderedMap.get?_eq_some_iff, entries_shells (nodup_read hr) hmade] at hm
  obtain ⟨m', hm', hpair⟩ := List.mem_map.mp hm
  obtain ⟨rfl, rfl⟩ := Prod.mk.inj hpair
  obtain ⟨x, hx, hshell⟩ := mem_of_forall₂ (mapM_eq_ok.mp hmade) hm'
  have hkey : m'.key = x.1 := (modelShell_ok hshell).1.key
  have hdeclared : x.2 = s := eq_of_mem_read hr hs hx hkey.symm
  obtain ⟨type, htype, hshell⟩ := bind_eq_ok.mp hshell
  rw [← hdeclared, hkey, htype, ← pure_eq_ok.mp hshell]

theorem isPivot_of_declaredType {type : ModelType} (h : declaredType key s = .ok type) (hs : s.type = none ∨ s.type = some "user") :
    type.isPivot = false := by
  unfold declaredType at h
  rcases hs with hs | hs
  all_goals
    rw [hs] at h
    rw [← pure_eq_ok.mp h]
    rfl

theorem typeOf?_declared (h : Completes [.relationReservations, .columns] d e) : e.typeOf? key = d.typeOf? key := by
  obtain ⟨d₁, h₁, d₂, h₂, rfl⟩ := h
  obtain rfl := Resolve.modify_run_ok.mp h₁
  have hdeclared := declared_columns h₂
  have hplaced : (reserveRelations d).typeOf? key = d.typeOf? key := by
    unfold Draft.typeOf?
    rw [get?_reserveRelations, Option.map_map]
    rfl
  rw [← hplaced]
  unfold Draft.typeOf?
  cases hm : (reserveRelations d).models.get? key with
  | none =>
    have hk : key ∉ d₂.models.keys := hdeclared.keys ▸ OrderedMap.get?_eq_none_iff.mp hm
    rw [OrderedMap.get?_eq_none_iff.mpr hk]
  | some m =>
    obtain ⟨n, hn, _⟩ := hdeclared.model hm
    rw [hn]
    refine congrArg some (hdeclared.keeps (P := fun o => o.type = m.type) (fun hs hP => ?_) hm hn rfl)
    cases hs <;> exact hP

namespace Course

variable (c : Course settings schema)

/-- A model that no relation line names as its pivot model keeps the type that it declares. -/
theorem typeOf?_linked (hnot : ¬c.declared.NamesPivot key) : c.linked.typeOf? key = c.declared.typeOf? key := by
  obtain ⟨d₁, h₁, d₂, h₂, d₃, h₃, hd⟩ := c.joins
  obtain ⟨d₄, h₄, h₅, hsound, _⟩ := c.exists_parents
  have e₁ := c.reaches_owned.1
  have t₁ := turns_belongsToMany c.sound_owned h₁
  have t₂ := turns_hasOneOrMany (c.sound_owned.edited t₁.1) h₂
  have t₃ := turns_hasOneOrManyThrough ((c.sound_owned.edited t₁.1).edited t₂.1) h₃
  have t₄ := turns_morphOneOrMany c.sound_pointed h₄
  have e₂ := (t₂.1.append t₃.1)
  rw [hd] at e₂
  have e₃ := (e₂.append c.reaches_pointed.1).append t₄.1
  have e₄ := (e₁.append t₁.1).append e₃
  rw [typeOf?_morphToMany hsound (fun h => hnot (h.back e₄)) h₅, typeOf?_of_edited e₃ (by decide),
    typeOf?_belongsToMany c.sound_owned (fun h => hnot (h.back e₁)) h₁, typeOf?_of_edited e₁ (by decide)]

/-- A model that declares another type, and that no relation line names as its pivot model, is no pivot model. -/
theorem isPivot_linked (hnot : ¬c.declared.NamesPivot key)
    (h : Completes [.quickModels, .modelShells] (.start settings schema) d) (hs : d.declarations.get? key = some s)
    (htype : s.type = none ∨ s.type = some "user") {m : Model} (hm : c.linked.models.get? key = some m) : m.isPivot = false := by
  obtain ⟨d', hd', hcolumns⟩ := c.exists_shelled
  obtain rfl := h.unique hd'
  have htyped := (c.typeOf?_linked hnot).trans (typeOf?_declared hcolumns)
  unfold Draft.typeOf? at htyped
  rw [hm] at htyped
  obtain ⟨m₀, hm₀, hsame⟩ := Option.map_eq_some_iff.mp htyped.symm
  unfold Model.isPivot
  rw [← hsame]
  exact isPivot_of_declaredType (declaredType_of_shells h hs hm₀) htype

/-- A model that a relation line names as its pivot model is the pivot model of a relation. -/
theorem exists_pivot_of_namesPivot (h : c.declared.NamesPivot key) :
    ∃ k m n r, c.complete.models.get? k = some m ∧ m.relations.get? n = some r ∧ r.link.pivot? = some key := by
  obtain ⟨l, reference, hl, hp, hf⟩ := h
  obtain ⟨m, hm⟩ : ∃ m, c.complete.models.get? l.model = some m := by
    obtain ⟨s, _, hs, _⟩ := hl
    rw [← c.edited_declared.declarations] at hs
    exact OrderedMap.mem_keys_iff.mp (c.founded.sound.keys ▸ OrderedMap.mem_keys_iff.mpr ⟨s, hs⟩)
  obtain ⟨r, hr⟩ := c.exists_relation hm hl.line
  obtain ⟨l', hl', hmodel, hname, htakes, _⟩ := c.exists_takesOver hm hr
  obtain rfl := hl.unique hl' hmodel hname
  obtain ⟨_, hpivot⟩ := htakes.pivot hp
  exact ⟨_, m, _, r, hm, hr, hpivot.symm.trans (c.edited_declared.findModel? ▸ hf)⟩

end Course

/-! ## Runs on a key that is added or declared -/

/-- The passes between the shells and the pivot models. -/
def Course.upToLinked : List Pass :=
  [.relationReservations, .columns, .belongsTo, .belongsToMany, .hasOneOrMany, .hasOneOrManyThrough, .morphTo, .morphOneOrMany,
   .morphToMany]

theorem Course.completes_linked (c : Course settings schema) {shelled : Draft}
    (h : Completes [.quickModels, .modelShells] (.start settings schema) shelled) : Completes Course.upToLinked shelled c.linked := by
  obtain ⟨shelled', hshelled, hcolumns⟩ := c.exists_shelled
  obtain rfl := h.unique hshelled
  exact hcolumns.append (.cons c.belongsTo (c.joins.append (.cons c.morphTo c.parents)))

section

variable {S : String → Part → Prop} (hS : ∀ k p, p ≠ .autoId → S k p)
include hS

theorem simulates_upToLinked : ∀ pass ∈ Course.upToLinked, Simulates (Draft.Agrees S) pass.body := by
  have hall : ∀ {p}, p ≠ .autoId → ∀ k, S k p := fun hp k => hS k _ hp
  unfold Course.upToLinked
  simp only [List.forall_mem_cons]
  exact ⟨simulates_relationReservations, simulates_columns (hall (by simp)) (hall (by simp)),
    simulates_belongsTo (hall (by simp)) (hall (by simp)) (hall (by simp)), simulates_belongsToMany (hall (by simp)),
    simulates_hasOneOrMany (hall (by simp)), simulates_hasOneOrManyThrough (hall (by simp)), simulates_morphTo,
    simulates_morphOneOrMany (hall (by simp)), simulates_morphToMany (hall (by simp)), fun _ h => absurd h List.not_mem_nil⟩

theorem simulates_fromPivoted : ∀ pass ∈ [Pass.morphColumns, .modelAttributes, .finalizeModels, .explicitMigrations, .modelMigrations,
    .pivotMigrations], Simulates (Draft.Agrees S) pass.body := by
  have hall : ∀ {p}, p ≠ .autoId → ∀ k, S k p := fun hp k => hS k _ hp
  have hrelations : ∀ k, AllRelations (S k) := fun k kind => hS k _ (by simp)
  simp only [List.forall_mem_cons]
  exact ⟨simulates_morphColumns (hall (by simp)) (hall (by simp)) (hall (by simp)),
    simulates_modelAttributes (hall (by simp)) (hall (by simp)) hrelations (hall (by simp)),
    simulates_finalizeModels (hall (by simp)) hrelations, simulates_explicitMigrations,
    simulates_modelMigrations (hall (by simp)) (hall (by simp)),
    simulates_pivotMigrations fun k => ⟨hS k _ (by simp), hS k _ (by simp), hS k _ (by simp), hrelations k⟩,
    fun _ h => absurd h List.not_mem_nil⟩

end

/-- A model keeps the identity of its shell. -/
theorem Stops.sameIdentity {c : Course settings schema} {shelled tabled : Draft} (h : Stops c shelled tabled e) {k : String}
    {m n : Model} (hm : shelled.models.get? k = some m) (hn : e.models.get? k = some n) : SameIdentity m n := by
  obtain ⟨shelled', hshelled, _, _, hidentity⟩ := c.exists_shells
  obtain rfl := h.shells.unique hshelled
  exact hidentity k m n hm (h.complete ▸ hn)

/-- From shells that agree but for whether the key of one model was added, the passes come to ends that agree so, if the model is no
pivot model when the keys of pivot models are given up. -/
theorem Stops.exists_end_unadded {c : Course settings schema} {shelled tabled : Draft} (hstops : Stops c shelled tabled e)
    (hplain : ∀ m, c.linked.models.get? key = some m → m.isPivot = false) (h : shelled.Agrees (ButAutoId key) d) :
    ∃ e', Completes (standardPasses.drop 2) d e' ∧ e.Agrees (ButAutoId key) e' ∧ e'.artifacts = e.artifacts := by
  have hS := butAutoId_of_part key
  obtain ⟨linked', hlinked', hagrees⟩ := completes_simulates (simulates_upToLinked hS) h (c.completes_linked hstops.shells)
  obtain ⟨pivoted', hpivoted', hagrees⟩ := pivotModels_agrees (fun k => ⟨hS k _ (by simp), hS k _ (by simp), fun _ => hS k _ (by simp)⟩)
    hagrees (sameGivers_unadded hagrees hplain) c.pivotModels
  obtain ⟨tabled', htabled', hagrees⟩ := completes_simulates (simulates_fromPivoted hS) hagrees
    (.cons c.morphColumns (.cons c.modelAttributes (.cons hstops.finalizeModels hstops.tables)))
  obtain ⟨e', he', hagrees, hartifacts⟩ := artifacts_agrees hS hagrees hstops.artifacts
  exact ⟨e', hlinked'.append (.cons hpivoted' (htabled'.append (.cons he' rfl))), hagrees, hartifacts⟩

/-- A model that no relation uses as its pivot model, and that is no pivot model of its own, comes to the same whether its key is added
or declared. -/
theorem completes_redeclared_unadded (h : Completes standardPasses (.start settings schema) e)
    (hs : e.declarations.get? key = some s) (hread : modelDeclaration key value = .ok (unadded s))
    (htype : s.type = none ∨ s.type = some "user")
    (hnot : ∀ k m n r, e.models.get? k = some m → m.relations.get? n = some r → r.link.pivot? ≠ some key) :
    ∃ e', Completes standardPasses (.start settings (schema.redeclared key value)) e' ∧ e'.settings = e.settings ∧
      e'.models = e.models.modify key ({ · with autoId := false }) ∧ e'.migrations = e.migrations ∧ e'.artifacts = e.artifacts := by
  obtain ⟨c, shelled, tabled, hstops⟩ := exists_stops h
  have hshelled : shelled.declarations.get? key = some s := hstops.declarations ▸ hs
  obtain ⟨shelled', hshells, hmodels, hagrees⟩ := completes_shells_unadded hstops.shells hshelled hread
  have hnames : ¬c.declared.NamesPivot key := fun hp => by
    obtain ⟨k, m, n, r, hm, hr, hpivot⟩ := c.exists_pivot_of_namesPivot hp
    exact hnot k m n r (hstops.complete ▸ hm) hr hpivot
  obtain ⟨e', he', hagrees, hartifacts⟩ := hstops.exists_end_unadded
    (fun m hm => c.isPivot_linked hnames hstops.shells hshelled htype hm) hagrees
  have hrun : Completes standardPasses (.start settings (schema.redeclared key value)) e' := hshells.append he'
  refine ⟨e', hrun, hagrees.settings, models_eq_of_unadded hagrees fun m n hm hn => ?_, hagrees.migrations, hartifacts⟩
  -- The end has what the shell has, and the key of the shell is declared.
  obtain ⟨c', _, _, hstops'⟩ := exists_stops hrun
  obtain rfl := hshells.unique hstops'.shells
  obtain ⟨o, ho⟩ := OrderedMap.mem_keys_iff.mp (hstops.keys ▸ OrderedMap.mem_keys_iff.mpr ⟨m, hm⟩ : key ∈ shelled.models.keys)
  have hshell : shelled'.models.get? key = some { o with autoId := false } := by
    rw [hmodels, OrderedMap.get?_modify, if_pos rfl, ho]
    rfl
  exact (hstops'.sameIdentity hshell hn).autoId

end Resolution

end Schemata
