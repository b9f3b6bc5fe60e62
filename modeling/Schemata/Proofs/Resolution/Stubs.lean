import Schemata.Proofs.Resolution.BesideTables

/-!
# Factories

There is a factory for each model that has one and is no pivot model. Its fields are those that follow from the columns that may be
filled, and those that the declaration gives.
-/

namespace Schemata.Resolution

variable {settings : Settings} {schema : SchemaDeclaration} {d e : Draft} {m : Model} {name : String}

/-! ## Fields -/

theorem mem_fillable_of_guessedFields (h : name ∈ (guessedFields m).map Prod.fst) : name ∈ m.fillable := by
  obtain ⟨x, hx, rfl⟩ := List.mem_map.mp h
  obtain ⟨c, hc, hfield⟩ := List.mem_filterMap.mp hx
  obtain ⟨field, _, rfl⟩ := Option.map_eq_some_iff.mp hfield
  obtain ⟨_, hfillable⟩ := Bool.and_eq_true_iff.mp (List.mem_filter.mp hc).2
  exact List.contains_iff_mem.mp hfillable

theorem mem_fields_factoryOf {s : ModelDeclaration} : name ∈ (factoryOf m s).fields.keys ↔
    name ∈ (guessedFields m).map Prod.fst ∨ name ∈ (declaredFields s).map Prod.fst := by
  unfold factoryOf
  rw [OrderedMap.mem_keys_ofList, List.map_append, List.mem_append]

/-- The fields that a declaration gives hide those that follow from the columns. -/
theorem get?_fields_factoryOf (m : Model) (s : ModelDeclaration) (name : String) : (factoryOf m s).fields.get? name =
    (((s.factory.bind Toggle.value?).bind (·.fields.get? name)).map FactoryField.expression).or
      ((OrderedMap.ofList (guessedFields m)).get? name) := by
  have hfields : ((declaredFields s).map Prod.fst).Nodup ∧ (declaredFields s).lookup name =
      ((s.factory.bind Toggle.value?).bind (·.fields.get? name)).map FactoryField.expression := by
    unfold declaredFields
    cases s.factory.bind Toggle.value? with
    | none => exact ⟨List.nodup_nil, rfl⟩
    | some detail =>
      have hkeys := (detail.fields.mapEntries fun _ value => FactoryField.expression value).keys_nodup
      exact ⟨hkeys, detail.fields.get?_mapEntries (fun _ value => FactoryField.expression value) name⟩
  unfold factoryOf
  dsimp only
  rw [OrderedMap.get?_ofList_append hfields.1, hfields.2]

/-- A field that follows from a column fills it. If it stands for another model, the column serves a `belongsTo` to that. -/
theorem exists_column_of_guessed {field : FactoryField} (h : (OrderedMap.ofList (guessedFields m)).get? name = some field) :
    ∃ c ∈ m.columns.values, c.name = name ∧ name ∈ m.fillable ∧ ∀ target, field = .related target →
      ∃ relation r link, c.relation = some relation ∧ m.relations.get? relation = some r ∧ r.link = .belongsTo link ∧
        link.model = target := by
  obtain ⟨c, hc, hfield⟩ := List.mem_filterMap.mp (OrderedMap.mem_of_get?_ofList h)
  obtain ⟨made, hmade, heq⟩ := Option.map_eq_some_iff.mp hfield
  obtain ⟨rfl, rfl⟩ := Prod.mk.inj heq
  obtain ⟨hmem, hfillable⟩ := List.mem_filter.mp hc
  refine ⟨c, hmem, rfl, List.contains_iff_mem.mp (Bool.and_eq_true_iff.mp hfillable).2, ?_⟩
  rintro target rfl
  unfold factoryField? at hmade
  split at hmade
  · rename_i link hlink
    obtain ⟨relation, hrelation, hlink⟩ := Option.bind_eq_some_iff.mp hlink
    obtain ⟨r, hr, hlink⟩ := Option.bind_eq_some_iff.mp hlink
    cases hmade
    exact ⟨relation, r, link, hrelation, hr, Relation.belongsTo?_eq_some_iff.mp hlink, rfl⟩
  · split at hmade
    · cases hmade
    · obtain ⟨_, _, hprovider⟩ := Option.map_eq_some_iff.mp hmade
      cases hprovider

/-! ## Factories of all models -/

theorem factories_made {made : OrderedMap FactoryDefinition} (hd : d.Keyed) (h : factories d = .ok made) :
    made.keys = (d.models.values.filter fun m => m.factory && !m.isPivot).map Model.key ∧
      List.Forall₂ (fun m x => x.1 = m.key ∧ ∃ s, d.declarations.get? m.key = some s ∧ x.2 = factoryOf m s)
        (d.models.values.filter fun m => m.factory && !m.isPivot) made.entries := by
  obtain ⟨pairs, hpairs, h⟩ := bind_eq_ok.mp h
  obtain rfl := pure_eq_ok.mp h
  have hall := (mapM_eq_ok.mp hpairs).imp fun m x hx => (show x.1 = m.key ∧ ∃ s, d.declarations.get? m.key = some s ∧
      x.2 = factoryOf m s by
    obtain ⟨s, hs, hx⟩ := bind_eq_ok.mp hx
    obtain rfl := pure_eq_ok.mp hx
    exact ⟨rfl, s, Draft.declaration_eq_ok.mp hs, rfl⟩)
  have hkeys : pairs.map Prod.fst = (d.models.values.filter fun m => m.factory && !m.isPivot).map Model.key :=
    map_eq_of_forall₂ And.left hall
  have hnodup : (pairs.map Prod.fst).Nodup := by
    rw [hkeys]
    refine (List.filter_sublist.map _).nodup ?_
    rw [hd.map_key]
    exact d.models.keys_nodup
  unfold OrderedMap.keys
  rw [OrderedMap.entries_ofList hnodup]
  exact ⟨hkeys, hall⟩

theorem factories_ok (hd : d.Keyed) {made : OrderedMap FactoryDefinition} (h : factories d = .ok made) {k : String}
    {f : FactoryDefinition} : made.get? k = some f ↔ ∃ m s, d.models.get? k = some m ∧ (m.factory && !m.isPivot) = true ∧
      d.declarations.get? k = some s ∧ f = factoryOf m s := by
  obtain ⟨_, hall⟩ := factories_made hd h
  rw [OrderedMap.get?_eq_some_iff]
  constructor
  · intro hmem
    obtain ⟨m, hm, rfl, s, hs, rfl⟩ := mem_of_forall₂ hall hmem
    obtain ⟨hm, hfactory⟩ := List.mem_filter.mp hm
    obtain ⟨k, hk⟩ := OrderedMap.mem_values_iff.mp hm
    exact ⟨m, s, (hd k m hk).symm ▸ hk, hfactory, hs, rfl⟩
  · rintro ⟨m, s, hm, hfactory, hs, rfl⟩
    have hmem : m ∈ d.models.values.filter fun m => m.factory && !m.isPivot :=
      List.mem_filter.mpr ⟨OrderedMap.mem_values_iff.mpr ⟨k, hm⟩, hfactory⟩
    obtain ⟨⟨j, f⟩, hx, rfl, s', hs', rfl⟩ := exists_mem_of_forall₂ hall hmem
    rw [hd k m hm] at hs' hx
    obtain rfl := Option.some_inj.mp (hs.symm.trans hs')
    exact hx

/-- The factories in the end are those of the models in the end. -/
theorem factories_of_completes (h : Completes standardPasses (.start settings schema) e) :
    factories e = .ok e.artifacts.factories := by
  have hpasses : standardPasses = (modelPasses ++ [.finalizeModels, .explicitMigrations, .modelMigrations, .pivotMigrations]) ++
      [.artifacts] := rfl
  rw [hpasses] at h
  obtain ⟨d, _, e, he, rfl⟩ := completes_append.mp h
  obtain ⟨artifacts, hmade, he⟩ := bind_eq_ok.mp (Resolve.update_run_ok.mp he)
  obtain ⟨made, hmade, hartifacts⟩ := bind_eq_ok.mp hmade
  obtain rfl := pure_eq_ok.mp hartifacts
  obtain rfl := pure_eq_ok.mp he
  exact hmade

end Schemata.Resolution
