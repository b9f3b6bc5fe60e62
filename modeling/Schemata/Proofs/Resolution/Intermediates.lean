import Schemata.Proofs.Resolution.Inverses

/-!
# Models between

The line of a through relation need not say through which model it goes. Unless its name means a pair of models, it goes through the
first one that its target belongs to and that belongs to its own model. What is found so in the turn of the line is what would be
found in the end.
-/

namespace Schemata

theorem Relation.exists_through {r : Relation} (h : r.kind ∈ [RelationKind.hasOneThrough, .hasManyThrough]) :
    ∃ link, r.link = .hasOneThrough link ∨ r.link = .hasManyThrough link := by
  unfold Relation.kind at h
  cases hlink : r.link with
  | hasOneThrough link => exact ⟨link, .inl rfl⟩
  | hasManyThrough link => exact ⟨link, .inr rfl⟩
  | _ => rw [hlink] at h; simp [Link.kind] at h

namespace Resolution

open Schemata.Convention

variable {d e : Draft} {l : DeclaredRelation} {stages : List Stage} {target through : String}

/-- The name of a through relation means no pair of models if one of each pair that it may mean is missing. -/
theorem pairByName?_eq_none_iff {name : String} : pairByName? d name = none ↔
    ∀ pair ∈ throughCandidates name, d.findModel? pair.1 = none ∨ d.findModel? pair.2 = none := by
  unfold pairByName?
  rw [List.findSome?_eq_none_iff]
  refine forall₂_congr fun pair _ => ?_
  cases hfirst : d.findModel? pair.1 <;> cases hsecond : d.findModel? pair.2 <;> simp [hfirst, hsecond]

theorem throughPair_guessed (h : throughPair d l = .ok (target, through)) (hopen : l.argument? 1 = none)
    (hname : l.argument? 0 = none → pairByName? d l.name = none) : intermediate d l target = .ok through := by
  have guessed : ∀ {pair : String × String}, (do
      let target ← d.target l
      return (target, ← intermediate d l target) : Except SchemaFault (String × String)) = .ok pair →
      intermediate d l pair.1 = .ok pair.2 := by
    intro pair h
    obtain ⟨found, _, h⟩ := bind_eq_ok.mp h
    obtain ⟨between, hbetween, h⟩ := bind_eq_ok.mp h
    obtain rfl := pure_eq_ok.mp h
    exact hbetween
  unfold throughPair at h
  rw [hopen] at h
  cases hfirst : l.argument? 0 with
  | some reference => rw [hfirst] at h; exact guessed h
  | none =>
    rw [hfirst] at h
    dsimp only at h
    rw [hname hfirst] at h
    exact guessed h

theorem Draft.belongs_iff {source : String} :
    ((d.models.get? source).any fun m => (m.belongsTo? target).isSome) = true ↔ d.Belongs source target := by
  unfold Belongs
  cases d.models.get? source <;> simp

/-- The model between is that of the first `belongsTo` of the target that leads on. -/
theorem exists_of_intermediate (h : intermediate d l target = .ok through) : ∃ m link, d.models.get? target = some m ∧
    (m.belongsToRelations.map Prod.snd).find? (fun b => (d.models.get? b.model).any fun n => (n.belongsTo? l.model).isSome) =
      some link ∧ link.model = through := by
  obtain ⟨m, hm, h⟩ := bind_eq_ok.mp h
  have hmodels : m.belongsToRelations.map (·.2.model) = (m.belongsToRelations.map Prod.snd).map BelongsTo.model :=
    (List.map_map).symm
  dsimp only at h
  rw [hmodels, List.find?_map] at h
  split at h
  · rename_i found hfound
    obtain rfl := pure_eq_ok.mp h
    obtain ⟨link, hlink, rfl⟩ := Option.map_eq_some_iff.mp hfound
    exact ⟨m, link, Draft.model_eq_ok.mp hm, hlink, rfl⟩
  · exact absurd h throw_ne_ok

/-- The model between that is found stays the same once it is settled what models belong to. -/
theorem Edited.intermediate (h : Edited stages d e) (hs : .belongsTo ∉ stages) (hd : d.Sound)
    (hi : Resolution.intermediate d l target = .ok through) : Resolution.intermediate e l target = .ok through := by
  obtain ⟨m, hm, hi⟩ := bind_eq_ok.mp hi
  obtain ⟨n, hn, _⟩ := h.model (Draft.model_eq_ok.mp hm)
  have hmodels : n.belongsToRelations.map (·.2.model) = m.belongsToRelations.map (·.2.model) := by
    have hkept := congrArg (List.map BelongsTo.model) (h.belongsToRelations hs hd (Draft.model_eq_ok.mp hm) hn)
    rwa [List.map_map, List.map_map] at hkept
  have hleads : ∀ c, ((e.models.get? c).any fun n => (n.belongsTo? l.model).isSome) =
      (d.models.get? c).any fun m => (m.belongsTo? l.model).isSome := by
    intro c
    rw [Bool.eq_iff_iff, Draft.belongs_iff, Draft.belongs_iff]
    refine ⟨fun hc => ?_, fun hc => hc.edited h hd hs⟩
    obtain ⟨n, hn, hsome⟩ := hc
    obtain ⟨m, hm, _⟩ := h.back hn
    exact ⟨m, hm, h.belongsTo? hs hd hm hn l.model ▸ hsome⟩
  refine bind_eq_ok.mpr ⟨n, Draft.model_eq_ok.mpr hn, ?_⟩
  dsimp only at hi ⊢
  rw [hmodels]
  simpa only [hleads] using hi

namespace Course

variable {settings : Settings} {schema : SchemaDeclaration} (c : Course settings schema) {k name : String} {m : Model} {r : Relation}

/-- A through relation goes through the model between that is found in the end, unless its line names one or its name means a
pair. -/
theorem exists_between (hm : c.complete.models.get? k = some m) (hr : m.relations.get? name = some r) {link : Through}
    (hl : r.link = .hasOneThrough link ∨ r.link = .hasManyThrough link) : ∃ l, c.declared.Declares l ∧ l.model = k ∧
      l.name = name ∧ (l.argument? 1 = none → (l.argument? 0 = none → pairByName? c.complete l.name = none) →
        intermediate c.complete l link.model = .ok link.through) := by
  obtain ⟨l, d, hdeclares, rfl, rfl, hd, hend, hpair, _⟩ := c.exists_turn_through hm hr hl
  refine ⟨l, hdeclares, rfl, rfl, fun hopen hname => ?_⟩
  have hsame : pairByName? c.complete l.name = pairByName? d l.name := by
    unfold pairByName?
    rw [hend.findModel?]
  exact hend.intermediate (by decide) hd (throughPair_guessed hpair hopen fun hfirst => hsame ▸ hname hfirst)

end Course

end Resolution

end Schemata
