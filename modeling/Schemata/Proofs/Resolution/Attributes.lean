import Mathlib.Data.List.Flatten
import Schemata.Proofs.Resolution.Kept
import Schemata.Proofs.Text
import Schemata.Resolution.Attributes

/-!
# Attributes and completion

Attributes are edits, made once for each model when the names in its declaration are known there. A model passes the last check
exactly when no place is empty and its columns go together.
-/

namespace Schemata.Resolution

variable {d e : Draft} {m : Model} {k : String}

/-! ## Names in a declaration -/

theorem checkNames_ok {role : AttributeRole} {known : String → Bool} {columns : List String}
    (h : checkNames role k known columns = .ok ()) : ∀ column ∈ columns, known column = true := by
  unfold checkNames at h
  split at h
  · exact absurd h throw_ne_ok
  · rename_i hnone
    intro column hc
    simpa using List.find?_eq_none.mp hnone column hc

theorem checkNames_of_known {role : AttributeRole} {known : String → Bool} {columns : List String}
    (h : ∀ column ∈ columns, known column = true) : checkNames role k known columns = .ok () := by
  unfold checkNames
  rw [List.find?_eq_none.mpr fun column hc => by simp [h column hc]]
  rfl

/-- The names in a declaration are those of something in the model. -/
structure Knows (s : ModelDeclaration) (m : Model) : Prop where
  hidden : ∀ name ∈ s.hidden, (name ∈ m.physicalNames ∨ name ∈ s.append) ∨ (m.relations.get? name).isSome
  fillable : ∀ names, s.fillable = some names → names ⊆ m.physicalNames
  route : ∀ name ∈ s.route, name ∈ m.physicalNames
  timestamps : ∀ t ∈ m.timestamps, t.createdAt ∈ m.physicalNames ∧ t.updatedAt ∈ m.physicalNames
  casts : ∀ name ∈ s.casts.keys, name ∈ m.physicalNames ∨ name ∈ s.append
  indexes : ∀ i ∈ s.indexes, i.columns ⊆ m.physicalNames

theorem checkAttributes_ok {s : ModelDeclaration} (h : checkAttributes m s = .ok ()) : Knows s m := by
  obtain ⟨_, hidden, h⟩ := bind_eq_ok.mp h
  obtain ⟨_, fillable, h⟩ := bind_eq_ok.mp h
  obtain ⟨_, route, h⟩ := bind_eq_ok.mp h
  obtain ⟨_, timestamps, h⟩ := bind_eq_ok.mp h
  obtain ⟨_, casts, indexes⟩ := bind_eq_ok.mp h
  refine ⟨fun name hn => ?_, fun names hs name hn => ?_, fun name hr => ?_, fun t ht => ⟨?_, ?_⟩, fun name hn => ?_,
    fun i hi name hn => ?_⟩
  · simpa [Model.hasPhysicalColumn_iff, Model.relation?] using checkNames_ok hidden name hn
  · rw [hs] at fillable
    exact (m.hasPhysicalColumn_iff name).mp (checkNames_ok fillable name hn)
  · exact (m.hasPhysicalColumn_iff name).mp (checkNames_ok route name (Option.mem_toList.mpr hr))
  · rw [Option.mem_def.mp ht] at timestamps
    exact (m.hasPhysicalColumn_iff _).mp (checkNames_ok timestamps _ (by simp))
  · rw [Option.mem_def.mp ht] at timestamps
    exact (m.hasPhysicalColumn_iff _).mp (checkNames_ok timestamps _ (by simp))
  · simpa [Model.hasPhysicalColumn_iff] using checkNames_ok casts name hn
  · exact (m.hasPhysicalColumn_iff name).mp (checkNames_ok indexes name (List.mem_flatMap.mpr ⟨i, hi, hn⟩))

theorem checkAttributes_of_knows {s : ModelDeclaration} (h : Knows s m) : checkAttributes m s = .ok () := by
  have hphysical : ∀ {name}, name ∈ m.physicalNames → m.hasPhysicalColumn name = true := (m.hasPhysicalColumn_iff _).mpr
  refine bind_eq_ok.mpr ⟨(), checkNames_of_known fun name hn => ?_, bind_eq_ok.mpr ⟨(), checkNames_of_known fun name hn => ?_,
    bind_eq_ok.mpr ⟨(), checkNames_of_known fun name hn => hphysical (h.route name (Option.mem_toList.mp hn)),
    bind_eq_ok.mpr ⟨(), checkNames_of_known fun name hn => ?_, bind_eq_ok.mpr ⟨(), checkNames_of_known fun name hn => ?_,
    checkNames_of_known fun name hn => ?_⟩⟩⟩⟩⟩
  · simpa [Model.hasPhysicalColumn_iff, Model.relation?] using h.hidden name hn
  · cases hs : s.fillable with
    | none => rw [hs] at hn; exact absurd hn List.not_mem_nil
    | some names => rw [hs] at hn; exact hphysical (h.fillable names hs hn)
  · cases ht : m.timestamps with
    | none => rw [ht] at hn; exact absurd hn List.not_mem_nil
    | some t =>
      rw [ht] at hn
      obtain ⟨hcreated, hupdated⟩ := h.timestamps t ht
      rcases List.mem_pair.mp hn with rfl | rfl
      · exact hphysical hcreated
      · exact hphysical hupdated
  · simpa [Model.hasPhysicalColumn_iff] using h.casts name hn
  · obtain ⟨i, hi, hn⟩ := List.mem_flatMap.mp hn
    exact hphysical (h.indexes i hi hn)

/-! ## Paths of relations -/

/-- The segments of a path are the names of relations, each of the model that the one before leads to. A `morphTo` leads to models
of any kind and ends the path, whatever follows. -/
inductive Leads (models : OrderedMap Model) : String → List String → Prop
  | all {start} : Leads models start []
  | pointer {start owner name r rest} : models.get? start = some owner → owner.relations.get? name = some r →
      r.kind = .morphTo → Leads models start (name :: rest)
  | step {start owner name r next rest} : models.get? start = some owner → owner.relations.get? name = some r →
      r.link.model? = some next → Leads models next rest → Leads models start (name :: rest)

theorem followPath_ok {owner path : String} {segments : List String} (h : followPath d owner path k segments = .ok ()) :
    Leads d.models k segments := by
  induction segments generalizing k with
  | nil => exact .all
  | cons name rest ih =>
    obtain ⟨m, hm, h⟩ := bind_eq_ok.mp h
    have hm := Draft.model_eq_ok.mp hm
    split at h
    · exact absurd h throw_ne_ok
    · rename_i r hr
      split at h
      · rename_i next hnext
        exact .step hm hr hnext (ih h)
      · rename_i hnone
        refine .pointer hm hr ?_
        unfold Relation.kind
        cases hl : r.link <;> simp_all [Link.model?, Link.kind]

/-- A path goes the same way until the models are complete. -/
theorem Leads.edited {stages : List Stage} (h : Edited stages d e)
    (hs : stages ⊆ [.pivotModels, .morphColumns, .modelAttributes]) {segments : List String}
    (hk : Leads d.models k segments) : Leads e.models k segments := by
  induction hk with
  | all => exact .all
  | pointer hm hr hkind =>
    obtain ⟨n, hn, _⟩ := h.model hm
    exact .pointer hn (h.relations hs hm hn ▸ hr) hkind
  | step hm hr hnext _ ih =>
    obtain ⟨n, hn, _⟩ := h.model hm
    exact .step hn (h.relations hs hm hn ▸ hr) hnext ih

/-- A path joins its segments by dots. -/
structure IsPath (path : String) (segments : List String) : Prop where
  joined : ['.'].intercalate (segments.map String.toList) = path.toList
  nonempty : segments ≠ []
  undotted : ∀ name ∈ segments, '.' ∉ name.toList

theorem isPath_splitOn (path : String) : IsPath path ((path.toList.splitOn '.').map String.ofList) where
  joined := by
    have hid : String.toList ∘ String.ofList = id := funext fun _ => String.toList_ofList
    rw [List.map_map, hid, List.map_id, List.intercalate_splitOn]
  nonempty := by simp
  undotted name hname hdot := by
    obtain ⟨part, hpart, rfl⟩ := List.mem_map.mp hname
    rw [List.splitOn_eq_splitOnP] at hpart
    rw [String.toList_ofList] at hdot
    simpa using (mem_of_mem_splitOnP hpart '.' hdot).2

theorem checkEager_ok {paths : List String} (h : checkEager d k paths = .ok ()) :
    ∀ path ∈ paths, ∃ segments, IsPath path segments ∧ Leads d.models k segments :=
  fun path hp => ⟨_, isPath_splitOn path, followPath_ok (forM_eq_ok.mp h path hp)⟩

/-! ## Attributes -/

theorem resolveAttributes_ok_iff : resolveAttributes k d = .ok e ↔ ∃ s m, d.declarations.get? k = some s ∧
    d.models.get? k = some m ∧ checkAttributes m s = .ok () ∧ checkEager d k s.eager = .ok () ∧
      e = d.modifyModel k (withAttributes s) := by
  unfold resolveAttributes
  simp only [bind_eq_ok, Draft.declaration_eq_ok, Draft.model_eq_ok, pure_eq_ok, exists_and_left, eq_comm (a := e)]
  constructor
  · rintro ⟨s, hs, m, hm, ⟨_, hattributes, _, heager, he⟩⟩
    exact ⟨s, hs, m, hm, hattributes, heager, he⟩
  · rintro ⟨s, hs, m, hm, hattributes, heager, he⟩
    exact ⟨s, hs, m, hm, (), hattributes, (), heager, he⟩

theorem resolveAttributes_edited (h : resolveAttributes k d = .ok e) : Edited [.modelAttributes] d e := by
  obtain ⟨s, _, _, _, _, _, rfl⟩ := resolveAttributes_ok_iff.mp h
  exact .of_modifyModel fun _ _ => .single (.attributes (by simp))

theorem modelAttributes_run (d : Draft) :
    Pass.modelAttributes.body d = (d.models.keys.forM fun k => Resolve.update (resolveAttributes k)) d := rfl

theorem edited_modelAttributes (h : Pass.modelAttributes.body d = .ok () e) : Edited [.modelAttributes] d e := by
  rw [modelAttributes_run] at h
  exact Resolve.along_of_forM (fun _ _ _ _ _ hf => resolveAttributes_edited (Resolve.update_run_ok.mp hf)) h

/-- Each model has the attributes of its declaration, which have been checked on the model as it was. -/
theorem exists_attributes (h : Pass.modelAttributes.body d = .ok () e) {n : Model} (hn : e.models.get? k = some n) :
    ∃ s m, d.declarations.get? k = some s ∧ d.models.get? k = some m ∧ n = withAttributes s m ∧ Knows s m ∧
      ∀ path ∈ s.eager, ∃ segments, IsPath path segments ∧ Leads e.models k segments := by
  obtain ⟨_, hkm, _⟩ := (edited_modelAttributes h).back hn
  rw [modelAttributes_run] at h
  have hmem : k ∈ d.models.keys := OrderedMap.mem_keys_iff.mpr ⟨_, hkm⟩
  have hkeys : (d.models.keys.map id).Nodup := by simpa using d.models.keys_nodup
  have apart : ∀ x ∈ d.models.keys, ∀ y ∈ d.models.keys, id y ≠ id x → ∀ c c' : Draft,
      Resolve.update (resolveAttributes y) c = .ok () c' → c'.models.get? x = c.models.get? x := by
    intro x _ y _ hne c c' hf
    obtain ⟨s, _, _, _, _, _, rfl⟩ := resolveAttributes_ok_iff.mp (Resolve.update_run_ok.mp hf)
    exact (c.get?_modifyModel y x _).trans (if_neg fun hxy => hne hxy.symm)
  obtain ⟨_, _, c, c', _, _, hturn, hdc, hcc', hce, hfound, hkept⟩ := Resolve.exists_turn (R := Edited [.modelAttributes])
    hkeys apart (fun _ _ _ _ _ _ hf => resolveAttributes_edited (Resolve.update_run_ok.mp hf)) h hmem
  obtain ⟨s, m, hs, hm, hattributes, heager, rfl⟩ := resolveAttributes_ok_iff.mp (Resolve.update_run_ok.mp hturn)
  refine ⟨s, m, hdc.declarations ▸ hs, hfound ▸ hm, ?_, checkAttributes_ok hattributes, fun path hp => ?_⟩
  · have hn' := hkept.symm.trans hn
    rw [Draft.get?_modifyModel, if_pos rfl, hm] at hn'
    exact (Option.some_inj.mp hn').symm
  · obtain ⟨segments, hpath, hleads⟩ := checkEager_ok heager path hp
    exact ⟨segments, hpath, (hleads.edited hcc' (by simp)).edited hce (by simp)⟩

theorem failsInSchema_modelAttributes : Resolve.FailsInSchema Pass.modelAttributes.body :=
  .bind .get fun _ => .forM fun _ _ => .update _

/-! ## What follows from columns -/

/-- Each cast that follows from a column is under a name of its own. -/
theorem castNames_nodup (hc : Creatable m.columns.values) :
    ((m.columns.values.filterMap fun c => c.castType?.map (c.name, ·)).map Prod.fst).Nodup := by
  have hnames : (m.columns.values.filterMap fun c => c.castType?.map (c.name, ·)).map Prod.fst =
      m.columns.values.flatMap fun c => if c.castType?.isSome then c.physicalNames else [] := by
    rw [List.map_filterMap, List.filterMap_eq_flatMap_toList]
    refine List.flatMap_congr fun c _ => ?_
    cases h : c.castType? with
    | none => rfl
    | some cast => simp [Column.physicalNames_of_castType? h]
  rw [hnames]
  refine (List.Sublist.flatMap_right _ fun c _ => ?_).nodup hc.names
  split
  · exact List.Sublist.refl _
  · exact List.nil_sublist _

/-- A declared cast comes before the one that follows from the column of the name. -/
theorem get?_castsOf (hc : Creatable m.columns.values) {declared : OrderedMap String} {name cast : String} :
    (castsOf m declared).get? name = some cast ↔ declared.get? name = some cast ∨
      declared.get? name = none ∧ ∃ c ∈ m.columns.values, c.name = name ∧ c.castType? = some cast := by
  have hderived : (OrderedMap.ofList (m.columns.values.filterMap fun c => c.castType?.map (c.name, ·))).get? name = some cast ↔
      ∃ c ∈ m.columns.values, c.name = name ∧ c.castType? = some cast := by
    rw [OrderedMap.get?_eq_some_iff, OrderedMap.entries_ofList (castNames_nodup hc), List.mem_filterMap]
    simp only [Option.map_eq_some_iff, Prod.mk.injEq]
    constructor
    · rintro ⟨c, hc, _, hcast, hname, rfl⟩
      exact ⟨c, hc, hname, hcast⟩
    · rintro ⟨c, hc, hname, hcast⟩
      exact ⟨c, hc, cast, hcast, hname, rfl⟩
  have hget : (castsOf m declared).get? name = (declared.get? name).or
      ((OrderedMap.ofList (m.columns.values.filterMap fun c => c.castType?.map (c.name, ·))).get? name) := by
    unfold castsOf OrderedMap.ofList
    dsimp only
    rw [List.foldl_append]
    exact OrderedMap.get?_foldl_insert declared.nodup _ name
  rw [hget, Option.or_eq_some_iff, hderived]

theorem eraseDups_eq_self {names : List String} (h : names.Nodup) : names.eraseDups = names := by
  induction names with
  | nil => rfl
  | cons name rest ih =>
    obtain ⟨hname, hrest⟩ := List.nodup_cons.mp h
    have hfilter : rest.filter (fun other => !other == name) = rest := by
      refine List.filter_eq_self.mpr fun other ho => ?_
      have hne : other ≠ name := fun heq => hname (heq ▸ ho)
      simpa using hne
    rw [List.eraseDups_cons, hfilter, ih hrest]

/-- The columns that may be filled by default have distinct names. -/
theorem defaultFillable_nodup (hc : Creatable m.columns.values) (hidden : List String) : (defaultFillable m hidden).Nodup :=
  (List.Sublist.flatMap List.filter_sublist _).nodup hc.names |>.filter _

/-! ## Completion -/

theorem checkComplete_ok (h : checkComplete m = .ok ()) :
    m.columns.pendingKeys = [] ∧ m.relations.pendingKeys = [] ∧ checkPhysical (.model m.key) m.columns.values = .ok () := by
  unfold checkComplete at h
  dsimp only at h
  split at h
  · cases h
  · rename_i hc
    split at h
    · cases h
    · rename_i hr
      refine ⟨hc, hr, ?_⟩
      cases hp : checkPhysical (.model m.key) m.columns.values with
      | error fault => rw [hp] at h; cases h
      | ok u => rfl

theorem creatable_of_checked (hd : d.Sound) (hm : d.models.get? k = some m)
    (hc : checkComplete m = .ok ()) : Creatable m.columns.values := by
  obtain ⟨_, _, hp⟩ := checkComplete_ok hc
  refine creatable_of_checkPhysical hp fun c hc => ?_
  obtain ⟨n, hn⟩ := Slots.mem_values_iff.mp hc
  exact (hd.model k m hm).column hn

/-- Without empty places, only the columns can be at fault. -/
theorem checkComplete_error (hc : m.columns.pendingKeys = []) (hr : m.relations.pendingKeys = []) {fault : Fault}
    (h : checkComplete m = .error fault) : ∃ cause, fault = .schema cause := by
  unfold checkComplete at h
  simp only [hc, hr] at h
  cases hp : checkPhysical (.model m.key) m.columns.values with
  | error cause => rw [hp] at h; cases h; exact ⟨cause, rfl⟩
  | ok u => rw [hp] at h; cases h

theorem finalizeModels_run (d : Draft) :
    Pass.finalizeModels.body d = match d.models.values.forM checkComplete with
      | .ok _ => .ok () d
      | .error fault => .error fault d := by
  change (match d.models.values.forM checkComplete with
    | .ok _ => pure ()
    | .error fault => throw fault : Resolve Unit) d = _
  cases d.models.values.forM checkComplete <;> rfl

theorem finalizeModels_ok (h : Pass.finalizeModels.body d = .ok () e) :
    e = d ∧ ∀ m ∈ d.models.values, checkComplete m = .ok () := by
  rw [finalizeModels_run] at h
  split at h
  · rename_i hall
    injection h with _ he
    exact ⟨he.symm, forM_eq_ok.mp hall⟩
  · cases h

theorem finalizeModels_error {fault : Fault} (h : Pass.finalizeModels.body d = .error fault e) :
    ∃ m ∈ d.models.values, checkComplete m = .error fault := by
  rw [finalizeModels_run] at h
  split at h
  · cases h
  · rename_i hall
    injection h with hf _
    exact forM_error (hf ▸ hall)

end Schemata.Resolution
