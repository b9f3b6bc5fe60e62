import Schemata.Proofs.Resolved.Basic

/-!
# Order and completeness

The standard passes run in an order that serves them all, and what they reserve they fill.
-/

namespace Schemata.Resolved

open Resolution

variable {settings : Settings} {schema : SchemaDeclaration} {d : Draft}

/-- The relations of a complete model are those of its lines, in order and of their kinds. -/
theorem resolved_eq_relationLines {k : String} {m : Model} (hd : d.Sound) (hm : d.models.get? k = some m)
    (hr : m.relations.pendingKeys = []) :
    m.relations.resolved.map (fun (n, r) => (n, r.kind)) = d.relationLines k := by
  have hs := hd.model k m hm
  refine OrderedMap.eq_of_subset ?_ (d.relationLines_nodup k) ?_
  · have hf : (m.relations.resolved.map fun (n, r) => (n, r.kind)).map Prod.fst = m.relations.resolved.map Prod.fst := by
      rw [List.map_map]; rfl
    rw [hf, Slots.keys_resolved hr, hs.names]
  · intro x hx
    obtain ⟨⟨n, r⟩, hnr, rfl⟩ := List.mem_map.mp hx
    exact (hs.relation (Slots.mem_resolved_iff.mp hnr)).2.1

/-- The standard passes never fail for their order: no pass finds a stage missing, and no place is empty when the models are
completed. The relations of a resolved model are the relation lines of its declaration, in order and of their kinds. -/
theorem resolves_in_order (settings : Settings) (schema : SchemaDeclaration) :
    (∀ cause, resolve settings schema ≠ .error (.order cause)) ∧
    (∀ before pass after p, standardPasses = before ++ pass :: after →
      runAll before (.start (settingsFor settings schema) schema) = ⟨p, none⟩ →
      pass.missing? p = none ∧
        (pass.name = "finalize-models" → ∀ k m, p.draft.models.get? k = some m →
          m.columns.pendingKeys = [] ∧ m.relations.pendingKeys = [])) ∧
    ∀ s, resolve settings schema = .ok s → ∀ k m, s.models.get? k = some m →
      ∃ y declaration, schema.models.get? k = some y ∧ modelDeclaration k y = .ok declaration ∧
        m.relations.pendingKeys = [] ∧
        m.relations.resolved.map (fun (n, r) => (n, r.kind)) = relationLines declaration := by
  refine ⟨?_, ?_, ?_⟩
  · intro cause h
    rcases resolve_error h with ⟨_, hf⟩ | ⟨_, hf⟩ <;> cases hf
  · intro before pass after p hp hrun
    refine ⟨missing?_of_areOrdered (hp ▸ areOrdered_standardPasses) hrun, fun hn => ?_⟩
    obtain ⟨rfl, -⟩ := before_finalizeModels hp hn
    exact (founded_of_modelPasses (runAll_none hrun).1).2
  · intro s h k m hm
    obtain ⟨d, e, hd, rfl⟩ := resolve_ok h
    have hm' : d.models.get? k = some m := hd.models ▸ hm
    have hk : k ∈ d.declarations.keys := hd.founded.sound.keys ▸ OrderedMap.mem_keys_iff.mpr ⟨m, hm'⟩
    obtain ⟨declaration, hdecl⟩ := OrderedMap.mem_keys_iff.mp hk
    obtain ⟨y, hy, hread⟩ := hd.founded.read.declaration k declaration hdecl
    obtain ⟨_, hr, _⟩ := checkComplete_ok (hd.checked m (OrderedMap.mem_values_iff.mpr ⟨k, hm'⟩))
    have hl : d.relationLines k = relationLines declaration := by
      unfold Draft.relationLines
      rw [hdecl]
      rfl
    exact ⟨y, declaration, hy, hread, hr, hl ▸ resolved_eq_relationLines hd.founded.sound hm' hr⟩

theorem blog_resolves_in_order :
    (∃ p, runAll modelPasses (.start (settingsFor .standard blog) blog) = ⟨p, none⟩ ∧
      Pass.finalizeModels.missing? p = none ∧ ∀ k m, p.draft.models.get? k = some m → m.columns.pendingKeys = []) ∧
    ∃ s m, resolve .standard blog = .ok s ∧ s.models.get? "User" = some m ∧ m.relations.pendingKeys = [] ∧
      m.relations.resolved.map (fun (n, r) => (n, r.kind)) =
        [("posts", .hasMany), ("comments", .hasManyThrough), ("roles", .belongsToMany), ("avatar", .morphOne)] := by
  obtain ⟨_, hbefore, hmodels⟩ := resolves_in_order .standard blog
  constructor
  · have hf : (runAll modelPasses (.start (settingsFor .standard blog) blog)).fault.isNone = true := by decide +kernel
    have hrun : runAll modelPasses (.start (settingsFor .standard blog) blog) =
        ⟨(runAll modelPasses (.start (settingsFor .standard blog) blog)).progress, none⟩ := by
      rw [← Option.isNone_iff_eq_none.mp hf]
    obtain ⟨hm, hc⟩ := hbefore _ _ _ _ standardPasses_eq hrun
    exact ⟨_, hrun, hm, fun k m hk => (hc rfl k m hk).1⟩
  · have huser : (resolve .standard blog).toOption.any (fun s => (s.models.get? "User").any fun _ => true) = true := by
      decide +kernel
    obtain ⟨s, h, hs⟩ := exists_resolved_of_any huser
    obtain ⟨m, hm, -⟩ := exists_of_any hs
    obtain ⟨y, declaration, hy, hread, hr, hl⟩ := hmodels s h "User" m hm
    have hlines : ((blog.models.get? "User").bind fun y => (modelDeclaration "User" y).toOption).map relationLines =
        some [("posts", .hasMany), ("comments", .hasManyThrough), ("roles", .belongsToMany), ("avatar", .morphOne)] := by
      decide +kernel
    rw [hy, Option.bind_some, hread] at hlines
    exact ⟨s, m, h, hm, hr, hl.trans (Option.some_inj.mp hlines)⟩

end Schemata.Resolved
