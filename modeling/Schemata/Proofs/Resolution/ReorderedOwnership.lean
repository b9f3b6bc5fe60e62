import Schemata.Proofs.Resolution.Kept
import Schemata.Proofs.Resolution.ReorderedRelations

/-!
# Key columns in another order

A line that names its key column may take the builder from a column of the model that it points at. That model gets key columns
in the same pass, so that the order of the models matters unless the name of the line ends in the name of none of them.
-/

namespace Schemata.Resolution

open Schemata.Convention Resolve

variable {d e d' : Draft} {l l' : DeclaredRelation} {k : String} {m : Model} {column : Column}

/-! ## Key columns -/

/-- The name of the key column of a line that points at a model. -/
def keyName (l : DeclaredRelation) (target : Model) : String :=
  (l.argument? 1).getD (foreignKey target.className target.primaryName)

theorem name_keyColumn (h : keyColumn l m = .ok column) : column.name = keyName l m := by
  obtain ⟨name, builder, rfl, hunnamed, hnamed⟩ := keyColumn_ok h
  unfold keyName
  cases hg : l.argument? 1 with
  | none => exact (hunnamed hg).2.2
  | some given => exact (hnamed given hg).1

/-- The columns of a model stay in order when a key column is put in its place, whatever they are marked for. -/
theorem values_placeKey {name : String} (hw : m.columns.slot? name = some .pending) (column : Column) : ∃ before after,
    m.columns.values.map Column.untagged = before ++ after ∧
      ((placeKey name column m).columns.values.map Column.untagged = before ++ after ∨
        (placeKey name column m).columns.values.map Column.untagged = before ++ column.untagged :: after) := by
  obtain ⟨before, after, hr, he, hv⟩ := Slots.exists_resolved_of_pending hw
  have huntagged : ∀ key, (fun x : String × Column => (if x.1 = key then x.2.forRelation name else x.2).untagged) =
      fun x => x.2.untagged := by
    intro key
    funext x
    split <;> rfl
  refine ⟨before.map fun x => x.2.untagged, after.map fun x => x.2.untagged, ?_, ?_⟩
  · rw [Slots.values, hr, List.map_map, List.map_append]
    rfl
  · unfold placeKey
    split
    · rename_i key _
      refine .inl ?_
      rw [Slots.values, Slots.resolved_modify, he, List.map_map, List.map_map, ← List.map_append]
      exact congrArg (List.map · _) (huntagged key)
    · refine .inr ?_
      rw [Slots.values, hv column, List.map_map, List.map_append]
      rfl

/-- A key column hides no other from those who do not look for it. -/
theorem find?_values_placeKey {name : String} {p : Column → Bool} (hw : m.columns.slot? name = some .pending)
    (hp : ∀ c : Column, p c.untagged = p c) (hc : p column = false) :
    ((placeKey name column m).columns.values.find? p).map Column.untagged =
      (m.columns.values.find? p).map Column.untagged := by
  have hfind : ∀ xs : List Column, (xs.find? p).map Column.untagged = (xs.map Column.untagged).find? p := by
    intro xs
    rw [List.find?_map]
    exact congrArg (fun q => (xs.find? q).map Column.untagged) (funext fun c => (hp c).symm)
  obtain ⟨before, after, hm, hplaced⟩ := values_placeKey hw column
  rw [hfind, hfind, hm]
  rcases hplaced with h | h <;> rw [h]
  rw [List.find?_append, List.find?_append, List.find?_cons_of_neg (by rw [hp, hc]; exact Bool.false_ne_true)]

/-- The column of the primary key is there. -/
def Rooted (m : Model) : Prop :=
  m.primary.isSome → ∃ c, m.primaryColumn? = some c

theorem foreignMethod_placeKey {name : String} (hw : m.columns.slot? name = some .pending) (hr : Rooted m) (column : Column) :
    (placeKey name column m).foreignMethod = m.foreignMethod := by
  have hprimary := primary_placeKey name column m
  cases hkey : m.primary with
  | none => simp [Model.foreignMethod, Model.primaryColumn?, Model.hasUuidKey, hprimary, hkey]
  | some p =>
    obtain ⟨c, hc⟩ := hr (by rw [hkey]; rfl)
    obtain ⟨q, hq, hnamed⟩ := Option.bind_eq_some_iff.mp hc
    obtain ⟨c', hc', hu⟩ : ∃ c', (placeKey name column m).columnNamed? q.column = some c' ∧ c'.untagged = c.untagged :=
      columnNamed?_placeKey hw hnamed
    have hc' : (placeKey name column m).primaryColumn? = some c' := by
      rw [Model.primaryColumn?, hprimary, hq]
      exact hc'
    rw [Model.foreignMethod, Model.foreignMethod, hc', hc]
    exact Column.foreignMethod_eq_of_untagged hu

theorem builderFor_placeKey {name given : String} (hw : m.columns.slot? name = some .pending) (hr : Rooted m)
    (hn : ¬('_' :: column.name.toList) <:+ given.toList) :
    builderFor (placeKey name column m) given = builderFor m given := by
  have hfind := find?_values_placeKey (p := fun c => ('_' :: c.name.toList).isSuffixOf given.toList) hw (fun _ => rfl)
    (Bool.eq_false_iff.mpr fun h => hn (List.isSuffixOf_iff_suffix.mp h))
  unfold builderFor
  cases hm : m.columns.values.find? fun c => ('_' :: c.name.toList).isSuffixOf given.toList with
  | none =>
    rw [hm] at hfind
    rw [Option.map_eq_none_iff.mp hfind]
    exact foreignMethod_placeKey hw hr column
  | some c =>
    rw [hm] at hfind
    obtain ⟨c', hc', hu⟩ := Option.map_eq_some_iff.mp hfind
    rw [hc']
    exact Column.foreignMethod_eq_of_untagged hu

/-- The key column of a line does not depend on that of another, unless its name ends in the name of the other. -/
theorem keyColumn_placeKey {name : String} (hw : m.columns.slot? name = some .pending) (hr : Rooted m)
    (hn : ∀ given, l.argument? 1 = some given → ¬('_' :: column.name.toList) <:+ given.toList) :
    keyColumn l (placeKey name column m) = keyColumn l m := by
  have hs := sameIdentity_placeKey name column m
  have hprimary := primary_placeKey name column m
  have hkey : (placeKey name column m).hasPrimaryKey = m.hasPrimaryKey := congrArg Option.isSome hprimary
  have hname : (placeKey name column m).primaryName = m.primaryName := by
    rw [Model.primaryName, hprimary, Model.primaryName]
  unfold keyColumn
  cases hg : l.argument? 1 with
  | none =>
    dsimp only
    rw [hkey, hname, hs.className, hs.key, foreignMethod_placeKey hw hr]
  | some given =>
    dsimp only
    rw [builderFor_placeKey hw hr (hn given hg)]

/-! ## Turns -/

/-- What a turn makes of the model of its line. -/
def owned (l : DeclaredRelation) (key : String) (column : Column) (k : String) (m : Model) : Model :=
  fillPlace l (.belongsTo ⟨key, column.name, l.argument? 2⟩) k (if k = l.model then placeKey l.name column m else m)

theorem owned_of_ne {key : String} (hk : k ≠ l.model) : owned l key column k m = m := by
  unfold owned fillPlace
  rw [if_neg hk, if_neg hk]

theorem withoutParents_placeKey (name : String) (column : Column) (m : Model) :
    (placeKey name column m).withoutParents = placeKey name column m.withoutParents := by
  have hkey : declaredKey? m.withoutParents name column.name = declaredKey? m name column.name := rfl
  unfold placeKey
  rw [hkey]
  split <;> rfl

theorem blind_owned (l : DeclaredRelation) (key : String) (column : Column) : Blind (owned l key column) := by
  intro k m n h
  refine blind_fillPlace l _ ?_
  split
  · rw [withoutParents_placeKey, h, withoutParents_placeKey]
  · exact h

theorem keyColumn_owned {key : String} :
    keyColumn l (owned l' key column l'.model m) = keyColumn l (placeKey l'.name column m) := by
  unfold owned fillPlace
  rw [if_pos rfl, if_pos rfl]
  rfl

/-- A turn puts a key column that its target asks for. -/
def PutsKey (l : DeclaredRelation) (d : Draft) (w : String → Model → Model) : Prop :=
  ∃ key target column, d.target l = .ok key ∧ d.models.get? key = some target ∧ keyColumn l target = .ok column ∧
    w = owned l key column

theorem resolveBelongsTo_iff_putsKey : resolveBelongsTo l d = .ok e ↔ ∃ w, PutsKey l d w ∧ e = d.mapModels w := by
  have hputs : ∀ key (column : Column), (d.modifyModel l.model (placeKey l.name column)).resolveRelation l
      (.belongsTo ⟨key, column.name, l.argument? 2⟩) = d.mapModels (owned l key column) :=
    fun _ _ => Draft.mapModels_mapModels ..
  rw [resolveBelongsTo_ok_iff]
  constructor
  · rintro ⟨key, target, column, hkey, htarget, hcolumn, rfl⟩
    exact ⟨_, ⟨key, target, column, hkey, htarget, hcolumn, rfl⟩, hputs key column⟩
  · rintro ⟨_, ⟨key, target, column, hkey, htarget, hcolumn, rfl⟩, rfl⟩
    exact ⟨key, target, column, hkey, htarget, hcolumn, (hputs key column).symm⟩

/-- No line gives its key column a name that ends in that of a key column of another model that it points at. -/
def Draft.Unmixed (d : Draft) : Prop :=
  ∀ ⦃l l' : DeclaredRelation⦄, d.Declares l → l.kind = .belongsTo → d.Declares l' → l'.kind = .belongsTo → l.model ≠ l'.model →
    d.target l' = .ok l.model → ∀ ⦃key target given⦄, d.target l = .ok key → d.models.get? key = some target →
      l'.argument? 1 = some given → ¬('_' :: (keyName l target).toList) <:+ given.toList

/-- What the turns of the pass need of a draft. -/
structure Draft.Owning (ls : List DeclaredRelation) (d : Draft) : Prop where
  sound : d.Sound
  classes : d.ClassesDistinct
  declares : ∀ l ∈ ls, d.Declares l ∧ l.kind = .belongsTo
  nodup : (ls.map DeclaredRelation.relation).Nodup
  waits : ∀ l ∈ ls, ∀ m, d.models.get? l.model = some m → m.columns.slot? l.name = some .pending
  rooted : ∀ k m, d.models.get? k = some m → Rooted m
  unmixed : d.Unmixed

theorem Edited.keyName {stages : List Stage} (h : Edited stages d e) (hs : .pivotModels ∉ stages) {n : Model}
    (hm : d.models.get? k = some m) (hn : e.models.get? k = some n) : keyName l n = keyName l m := by
  unfold Resolution.keyName Model.primaryName
  rw [(h.sameIdentity Edit.sameIdentity hm hn).className, h.primary hs hm hn]

theorem Draft.Unmixed.edited {stages : List Stage} (hd : d.Unmixed) (h : Edited stages d e) (hs : .pivotModels ∉ stages) :
    e.Unmixed := by
  intro l l' hl hk hl' hk' hne htarget key target given hkey hn hgiven
  rw [h.target] at htarget hkey
  obtain ⟨m, hm, _⟩ := h.back hn
  rw [h.keyName hs hm hn]
  exact hd (hl.back h) hk (hl'.back h) hk' hne htarget hkey hm hgiven

namespace Draft.Owning

variable {rest ls : List DeclaredRelation} {w : String → Model → Model}

theorem edited_head (hd : d.Owning (l :: rest)) (h : resolveBelongsTo l d = .ok e) : Edited [.belongsTo] d e := by
  obtain ⟨hl, hk⟩ := hd.declares l List.mem_cons_self
  exact resolveBelongsTo_edited hd.sound hl hk (hd.waits l List.mem_cons_self) h

theorem rooted_edited (hd : d.Owning ls) (h : Edited [.belongsTo] d e) {n : Model} (hn : e.models.get? k = some n) : Rooted n := by
  obtain ⟨m, hm, _⟩ := h.back hn
  have hprimary := h.primary (by decide) hm hn
  intro hp
  obtain ⟨c, hc⟩ := hd.rooted k m hm (hprimary ▸ hp)
  obtain ⟨q, hq, hnamed⟩ := Option.bind_eq_some_iff.mp hc
  obtain ⟨c', hc', _⟩ := h.columnNamed? (by decide) hm hn hnamed
  exact ⟨c', Option.bind_eq_some_iff.mpr ⟨q, hprimary.trans hq, hc'⟩⟩

theorem tail (hd : d.Owning (l :: rest)) (h : resolveBelongsTo l d = .ok e) : e.Owning rest := by
  have he := hd.edited_head h
  have hn := List.nodup_cons.mp hd.nodup
  refine ⟨hd.sound.edited he, hd.classes.edited he, fun l' hl' => ?_, hn.2, fun l' hl' n hn' => ?_,
    fun k n hn => hd.rooted_edited he hn, hd.unmixed.edited he (by decide)⟩
  · obtain ⟨hdeclares, hkind⟩ := hd.declares l' (List.mem_cons_of_mem l hl')
    exact ⟨hdeclares.along he, hkind⟩
  · have hne : l.relation ≠ ⟨l'.model, l'.name⟩ := fun heq => hn.1 (List.mem_map.mpr ⟨l', hl', heq.symm⟩)
    have hplace := resolveBelongsTo_apart hne h
    rw [Draft.atPlace_of_get? hn'] at hplace
    obtain ⟨m, hm, heq⟩ := Option.map_eq_some_iff.mp hplace.symm
    rw [pending_iff_atPlace, ← heq, ← pending_iff_atPlace]
    exact hd.waits l' (List.mem_cons_of_mem l hl') m hm

/-- A turn of another model asks for the same column, whether this turn has come or not. -/
theorem putsKey_mapModels (hd : d.Owning (l :: l' :: rest)) (hne : l.model ≠ l'.model) (hw : PutsKey l d w)
    {w' : String → Model → Model} : PutsKey l' (d.mapModels w) w' ↔ PutsKey l' d w' := by
  have hf := resolveBelongsTo_iff_putsKey.mpr ⟨w, hw, rfl⟩
  have htarget := (hd.edited_head hf).target l'
  obtain ⟨key, target, column, hkey, hm, hcolumn, rfl⟩ := hw
  obtain ⟨hl, hk⟩ := hd.declares l List.mem_cons_self
  obtain ⟨hl', hk'⟩ := hd.declares l' (by simp)
  have hsame : ∀ {j o}, d.target l' = .ok j → d.models.get? j = some o → keyColumn l' (owned l key column j o) = keyColumn l' o := by
    intro j o hj ho
    by_cases hown : j = l.model
    · subst hown
      rw [keyColumn_owned]
      refine keyColumn_placeKey (hd.waits l List.mem_cons_self o ho) (hd.rooted _ o ho) fun given hg => ?_
      rw [name_keyColumn hcolumn]
      exact hd.unmixed hl hk hl' hk' hne hj hkey hm hg
    · rw [owned_of_ne hown]
  unfold PutsKey
  simp only [htarget, Draft.get?_mapModels, Option.map_eq_some_iff]
  constructor
  · rintro ⟨j, _, column', hj, ⟨o, ho, rfl⟩, hcolumn', rfl⟩
    exact ⟨j, o, column', hj, ho, (hsame hj ho).symm.trans hcolumn', rfl⟩
  · rintro ⟨j, o, column', hj, ho, hcolumn', rfl⟩
    exact ⟨j, _, column', hj, ⟨o, ho, rfl⟩, (hsame hj ho).trans hcolumn', rfl⟩

end Draft.Owning

theorem plans_resolveBelongsTo :
    Plans DeclaredRelation.model Draft.Owning (fun l => .update (resolveBelongsTo l)) PutsKey where
  run := update_run_ok.trans resolveBelongsTo_iff_putsKey
  perm hp hP := ⟨hP.sound, hP.classes, fun l hl => hP.declares l (hp.mem_iff.mpr hl), (hp.map _).nodup_iff.mp hP.nodup,
    fun l hl => hP.waits l (hp.mem_iff.mpr hl), hP.rooted, hP.unmixed⟩
  keep hP hw := hP.tail (resolveBelongsTo_iff_putsKey.mpr ⟨_, hw, rfl⟩)
  blind := by
    rintro l d _ ⟨key, target, column, _, _, _, rfl⟩
    exact blind_owned l key column
  alike := by
    rintro l rest rest' d d' _ hP hP' halike ⟨key, target, column, hkey, hm, hcolumn, rfl⟩
    obtain ⟨target', hm', heq⟩ := halike.exists_model hm
    have hfind := (halike.sameOutlines.outlined hP.sound.keyed hP.classes).find
    have hcolumn' : keyColumn l target'.withoutParents = .ok column := heq ▸ hcolumn
    exact ⟨key, target', column, (Draft.target_congr hfind l).trans hkey, hm', hcolumn', rfl⟩
  apart hne hP hw := hP.putsKey_mapModels hne hw
  swap := by
    rintro l l' rest d _ _ hne _ ⟨key, _, column, _, _, _, rfl⟩ ⟨key', _, column', _, _, _, rfl⟩ k m _
    by_cases hk : k = l.model
    · rw [owned_of_ne fun h => hne (hk.symm.trans h), owned_of_ne fun h => hne (hk.symm.trans h)]
    · rw [owned_of_ne hk, owned_of_ne hk]

theorem Draft.Owning.of_lists (hd : d.Sound) (hc : d.ClassesDistinct) (hw : d.Awaits .belongsTo)
    (hr : ∀ k m, d.models.get? k = some m → Rooted m) (hu : d.Unmixed) {ls : List DeclaredRelation}
    (hls : d.Lists [.belongsTo] ls) : d.Owning ls := by
  have hdeclares : ∀ l ∈ ls, d.Declares l ∧ l.kind = .belongsTo := fun l hl =>
    ⟨(hls.declares l hl).1, List.mem_singleton.mp (hls.declares l hl).2⟩
  refine ⟨hd, hc, hdeclares, hls.nodup, fun l hl m hm => ?_, hr, hu⟩
  obtain ⟨hdeclares, hk⟩ := hdeclares l hl
  exact hw l.model m l.name hm (hk ▸ hdeclares.line)

/-- The pass gives the models the same key columns in any order if none of them can be taken for what a line refers to. -/
theorem reordered_belongsTo (hd : d.Sound) (hc : d.ClassesDistinct) (hw : d.Awaits .belongsTo)
    (hr : ∀ k m, d.models.get? k = some m → Rooted m) (hu : d.Unmixed) (hd' : d'.Sound) (hc' : d'.ClassesDistinct)
    (hw' : d'.Awaits .belongsTo) (hr' : ∀ k m, d'.models.get? k = some m → Rooted m) (hu' : d'.Unmixed) (h : d.Alike d')
    (hrun : Pass.belongsTo.body d = .ok () e) : ∃ e', Pass.belongsTo.body d' = .ok () e' ∧ e.Alike e' :=
  reordered_lines Draft.lists_of_declaredRelations (fun hk hr => declaredRelations_regrouped hk hr)
    plans_resolveBelongsTo.commutes (.of_lists hd hc hw hr hu) (.of_lists hd' hc' hw' hr' hu') h hrun

end Schemata.Resolution
