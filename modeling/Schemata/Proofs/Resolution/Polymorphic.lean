import Schemata.Proofs.Resolution.Along
import Schemata.Resolution.Polymorphic

/-!
# Passes of relations to parents of more than one model
-/

namespace Schemata.Resolution

open Schemata.Shorthand

variable {d e : Draft} {l : DeclaredRelation}

/-! ## Pointing at a parent -/

theorem turns_morphTo (h : Pass.morphTo.body d = .ok () e) :
    Edited [.morphTo] d e ∧ ∀ k n, ∀ kind ∈ [RelationKind.morphTo], (n, kind) ∈ d.relationLines k → ∃ l c c',
      TurnIn [.morphTo] (·.declaredRelations .morphTo) (fun line => modify (resolveMorphTo line)) d e l c c' ∧
        l.model = k ∧ l.name = n ∧ l.kind = kind := by
  refine turns_of_lines Draft.lists_of_declaredRelations (fun hne hf => ?_) (fun {l c c'} hc hl hk _ hf => ?_) h
  · obtain rfl := Resolve.modify_run_ok.mp hf
    exact Draft.atPlace_resolveRelation hne
  · obtain rfl := Resolve.modify_run_ok.mp hf
    have hkind : l.kind = .morphTo := List.mem_singleton.mp hk
    exact edited_resolveRelation (hl.along hc) hkind.symm (by simp [hkind, RelationKind.stage]) (List.nil_subset _) rfl

theorem edited_morphTo (h : Pass.morphTo.body d = .ok () e) :
    Edited [.morphTo] d e ∧ ∀ k n, ∀ kind ∈ [RelationKind.morphTo], (n, kind) ∈ d.relationLines k → Filled k n e := by
  obtain ⟨hde, hall⟩ := turns_morphTo h
  refine ⟨hde, fun k n kind hk hn => ?_⟩
  obtain ⟨l, c, c', ht, rfl, rfl, _⟩ := hall k n kind hk hn
  obtain rfl := Resolve.modify_run_ok.mp ht.left
  exact (filled_resolveRelation c l _).edited ht.after

/-- The link of a line from one parent. -/
def morphLink (l : DeclaredRelation) (link : MorphOneOrMany) : Link :=
  if l.kind = .morphOne then .morphOne link else .morphMany link

theorem kind_morphLink (hk : l.kind ∈ [.morphOne, .morphMany]) (link : MorphOneOrMany) :
    (morphLink l link).kind = l.kind := by
  unfold morphLink
  rcases List.mem_pair.mp hk with h | h <;> rw [h] <;> rfl

theorem morphLink_inj {link link' : MorphOneOrMany}
    (h : morphLink l link = .morphOne link' ∨ morphLink l link = .morphMany link') : link = link' := by
  unfold morphLink at h
  split at h
  · exact h.elim Link.morphOne.inj nofun
  · exact h.elim nofun Link.morphMany.inj

theorem resolveMorphOne_ok_iff : resolveMorphOne l d = .ok e ↔ ∃ link target, d.target l = .ok link.model ∧
    d.models.get? link.model = some target ∧ boundMorphTo l target = .ok link.relationKey ∧
      e = (d.modifyRelation link.model link.relationKey (Relation.mapMorphTo (·.addModel l.model))).resolveRelation l
        (morphLink l link) := by
  unfold resolveMorphOne
  simp only [bind_eq_ok, Draft.model_eq_ok, pure_eq_ok]
  constructor
  · rintro ⟨target, ht, m, hm, relationKey, hr, rfl⟩
    exact ⟨⟨target, relationKey⟩, m, ht, hm, hr, rfl⟩
  · rintro ⟨link, m, ht, hm, hr, rfl⟩
    exact ⟨link.model, ht, m, hm, link.relationKey, hr, rfl⟩

theorem resolveMorphOne_edited (hd : d.Sound) (hl : d.Declares l) (hk : l.kind ∈ [.morphOne, .morphMany])
    (h : resolveMorphOne l d = .ok e) : Edited [.morphOneOrMany] d e := by
  obtain ⟨link, _, ht, _, _, rfl⟩ := resolveMorphOne_ok_iff.mp h
  have hdc : Edited [.morphOneOrMany] d
      (d.modifyRelation link.model link.relationKey (Relation.mapMorphTo (·.addModel l.model))) :=
    .of_modifyModel fun _ _ => .single (.addParent (by simp) (hd.mem_keys hl.line))
  have hs : [link.model] ⊆ d.models.keys :=
    List.cons_subset.mpr ⟨Draft.mem_keys_of_target hd.keyed ht, List.nil_subset _⟩
  rw [← hdc.keys] at hs
  have hstage : l.kind.stage ∈ [Stage.morphOneOrMany] := by
    rcases List.mem_pair.mp hk with h | h <;> simp [h, RelationKind.stage]
  have hce := edited_resolveRelation_either (.morphOne link) (.morphMany link) (hl.along hdc) hk hstage hs hs ⟨rfl, rfl⟩
  exact trans_of (Edited [.morphOneOrMany]) hdc hce

theorem resolveMorphOne_apart {k n : String} (hne : l.relation ≠ ⟨k, n⟩) (h : resolveMorphOne l d = .ok e) :
    e.atPlace k n = d.atPlace k n := by
  obtain ⟨link, _, _, _, _, rfl⟩ := resolveMorphOne_ok_iff.mp h
  rw [Draft.atPlace_resolveRelation hne]
  exact Draft.atPlace_modifyModel fun _ _ => atPlace_addParent _ _ _

theorem turns_morphOneOrMany (hd : d.Sound) (h : Pass.morphOneOrMany.body d = .ok () e) :
    Edited [.morphOneOrMany] d e ∧ ∀ k n, ∀ kind ∈ [RelationKind.morphOne, .morphMany],
      (n, kind) ∈ d.relationLines k → ∃ l c c', TurnIn [.morphOneOrMany] (·.declaredRelationsOf .morphOne .morphMany)
        (fun line => .update (resolveMorphOne line)) d e l c c' ∧ l.model = k ∧ l.name = n ∧ l.kind = kind :=
  turns_of_lines (Draft.lists_of_declaredRelationsOf (by decide))
    (fun hne hf => resolveMorphOne_apart hne (Resolve.update_run_ok.mp hf))
    (fun hc hl hk _ hf => resolveMorphOne_edited (hd.edited hc) (hl.along hc) hk (Resolve.update_run_ok.mp hf)) h

theorem edited_morphOneOrMany (hd : d.Sound) (h : Pass.morphOneOrMany.body d = .ok () e) :
    Edited [.morphOneOrMany] d e ∧
      ∀ k n, ∀ kind ∈ [RelationKind.morphOne, .morphMany], (n, kind) ∈ d.relationLines k → Filled k n e := by
  obtain ⟨hde, hall⟩ := turns_morphOneOrMany hd h
  refine ⟨hde, fun k n kind hk hn => ?_⟩
  obtain ⟨l, c, c', ht, rfl, rfl, _⟩ := hall k n kind hk hn
  obtain ⟨link, _, _, _, _, rfl⟩ := resolveMorphOne_ok_iff.mp (Resolve.update_run_ok.mp ht.left)
  exact (filled_resolveRelation _ l _).edited ht.after

/-! ## The columns of a pointer -/

theorem declaredRelation?_ok {model name : String} {found : Option DeclaredRelation}
    (h : d.declaredRelation? model name = .ok found) :
    (found.elim Call.empty (·.columnMethods)).IndexedOnce := by
  obtain ⟨s, _, h⟩ := bind_eq_ok.mp h
  dsimp only at h
  split at h
  · cases hp : DeclaredRelation.parse model name (Call.ofLine (s.columns.get? name).join) with
    | error fault => rw [hp] at h; cases h
    | ok l =>
      rw [hp] at h
      obtain rfl := pure_eq_ok.mp h
      exact (DeclaredRelation.parse_ok hp).columnMethods
  · obtain rfl := pure_eq_ok.mp h
    exact fun hc => absurd hc.1 (by decide)

/-- The relation line of a place is the one that is declared there. -/
theorem declaredRelation?_eq (hl : d.Declares l) : d.declaredRelation? l.model l.name = .ok (some l) := by
  obtain ⟨s, text, hs, ht, hp⟩ := hl
  have hk := (DeclaredRelation.parse_ok hp).kind
  unfold Draft.declaredRelation? Draft.declaration
  rw [hs]
  simp only [pure_bind, ht, Option.join_some]
  rw [show Call.ofLine (some text) = .parse text from rfl, hk, hp]
  rfl

theorem morphColumn_indexedOnce {relation : String} {link : MorphTo} {shape : KeyShape} {qualifiers : Call}
    (h : qualifiers.IndexedOnce) : (morphColumn relation link shape qualifiers).methods.IndexedOnce := by
  refine h.of_subset ?_
  have hs : (qualifiers.removeAll "nullable").methods ⊆ qualifiers.methods := List.filter_sublist.subset
  exact List.Subset.trans (Column.methods_ofCall_single link.columnName _ _ _) hs

theorem resolveMorphColumns_ok_iff {key relation : String} {link : MorphTo} :
    resolveMorphColumns key relation link d = .ok e ↔ ∃ parents shape found column, link.models ≠ [] ∧
      link.models.mapM d.model = .ok parents ∧ commonShape? parents = some shape ∧
      d.declaredRelation? key relation = .ok found ∧
      column = morphColumn relation link shape (found.elim .empty (·.columnMethods)) ∧
      e = d.modifyModel key fun m => { m with columns := m.columns.resolve relation column } := by
  unfold resolveMorphColumns
  simp only [guard_eq_ok, List.isEmpty_iff, bind_eq_ok]
  constructor
  · rintro ⟨hne, parents, hp, h⟩
    split at h
    · exact absurd h throw_ne_ok
    · rename_i shape hs
      obtain ⟨found, hf, h⟩ := bind_eq_ok.mp h
      exact ⟨parents, shape, found, _, hne, hp, hs, hf, rfl, (pure_eq_ok.mp h).symm⟩
  · rintro ⟨parents, shape, found, _, hne, hp, hs, hf, rfl, rfl⟩
    refine ⟨hne, parents, hp, ?_⟩
    rw [hs]
    exact bind_eq_ok.mpr ⟨found, hf, rfl⟩

/-- The pointers of a draft: the places of its `morphTo` relations, with their links. -/
def Draft.pointers (d : Draft) : List (RelationName × MorphTo) :=
  d.models.values.flatMap fun m => m.morphToRelations.map fun (r, link) => (⟨m.key, r.name⟩, link)

theorem mem_morphToRelations {m : Model} {r : Relation} {link : MorphTo} :
    (r, link) ∈ m.morphToRelations ↔ ∃ n, m.relations.get? n = some r ∧ r.link = .morphTo link := by
  simp only [Model.morphToRelations, List.mem_filterMap, Slots.mem_values_iff, Option.map_eq_some_iff,
    Relation.morphTo?_eq_some_iff]
  constructor
  · rintro ⟨r', ⟨n, hn⟩, l, hl, heq⟩
    obtain ⟨rfl, rfl⟩ := Prod.mk.inj heq
    exact ⟨n, hn, hl⟩
  · rintro ⟨n, hn, hl⟩
    exact ⟨r, ⟨n, hn⟩, link, hl, rfl⟩

theorem mem_belongsToRelations {m : Model} {r : Relation} {link : BelongsTo} :
    (r, link) ∈ m.belongsToRelations ↔ ∃ n, m.relations.get? n = some r ∧ r.link = .belongsTo link := by
  simp only [Model.belongsToRelations, List.mem_filterMap, Slots.mem_values_iff, Option.map_eq_some_iff,
    Relation.belongsTo?_eq_some_iff]
  constructor
  · rintro ⟨r', ⟨n, hn⟩, l, hl, heq⟩
    obtain ⟨rfl, rfl⟩ := Prod.mk.inj heq
    exact ⟨n, hn, hl⟩
  · rintro ⟨n, hn, hl⟩
    exact ⟨r, ⟨n, hn⟩, link, hl, rfl⟩

theorem mem_pointers_iff (hd : d.Sound) {k n : String} {link : MorphTo} : (⟨k, n⟩, link) ∈ d.pointers ↔
    ∃ m r, d.models.get? k = some m ∧ m.relations.get? n = some r ∧ r.link = .morphTo link := by
  simp only [Draft.pointers, List.mem_flatMap, List.mem_map, OrderedMap.mem_values_iff]
  constructor
  · rintro ⟨m, ⟨j, hm⟩, ⟨r, l⟩, hr, heq⟩
    obtain ⟨hplace, rfl⟩ := Prod.mk.inj heq
    obtain ⟨rfl, rfl⟩ := RelationName.mk.inj hplace
    obtain ⟨i, hi, hl⟩ := mem_morphToRelations.mp hr
    rw [hd.keyed j m hm, ((hd.model j m hm).relation hi).1]
    exact ⟨m, r, hm, hi, hl⟩
  · rintro ⟨m, r, hm, hr, hl⟩
    refine ⟨m, ⟨k, hm⟩, (r, link), mem_morphToRelations.mpr ⟨n, hr, hl⟩, ?_⟩
    rw [hd.keyed k m hm, ((hd.model k m hm).relation hr).1]

/-- A line is bound to a `morphTo` of its target, whether it names one or not. -/
theorem boundMorphTo_ok {lines : List (String × RelationKind)} {keys : List String} {target : Model}
    (ht : Sound lines keys target) {name : String} (h : boundMorphTo l target = .ok name) :
    ∃ r link, target.relations.get? name = some r ∧ r.link = .morphTo link := by
  unfold boundMorphTo at h
  split at h
  · split at h
    · rename_i hsome
      obtain rfl := pure_eq_ok.mp h
      obtain ⟨link, hlink⟩ := Option.isSome_iff_exists.mp hsome
      obtain ⟨r, hr, hlink⟩ := Option.bind_eq_some_iff.mp hlink
      exact ⟨r, link, hr, Relation.morphTo?_eq_some_iff.mp hlink⟩
    · exact absurd h throw_ne_ok
  · split at h
    · rename_i only link honly
      obtain rfl := pure_eq_ok.mp h
      have hmem : (only, link) ∈ target.morphToRelations := honly ▸ List.mem_singleton_self _
      obtain ⟨n, hn, hlink⟩ := mem_morphToRelations.mp hmem
      exact ⟨only, link, (ht.relation hn).1.symm ▸ hn, hlink⟩
    · exact absurd h throw_ne_ok
    · exact absurd h throw_ne_ok

theorem names_values {lines : List (String × RelationKind)} {keys : List String} {m : Model} (hm : Sound lines keys m) :
    m.relations.values.map (·.name) = m.relations.resolved.map Prod.fst := by
  unfold Slots.values
  rw [List.map_map]
  exact List.map_congr_left fun x hx => (hm.relation (Slots.mem_resolved_iff.mp hx)).1

theorem pointers_nodup (hd : d.Sound) : (d.pointers.map Prod.fst).Nodup := by
  refine List.pairwise_map.mpr (List.pairwise_flatMap.mpr ⟨fun m hm => ?_, ?_⟩)
  · obtain ⟨k, hk⟩ := OrderedMap.mem_values_iff.mp hm
    have hn : (m.relations.values.map (·.name)).Nodup := names_values (hd.model k m hk) ▸ m.relations.keys_resolved_nodup
    refine List.pairwise_map.mpr (List.pairwise_filterMap.mpr ((List.pairwise_map.mp hn).imp ?_))
    intro r r' hne x hx x' hx' heq
    obtain ⟨_, _, rfl⟩ := Option.map_eq_some_iff.mp hx
    obtain ⟨_, _, rfl⟩ := Option.map_eq_some_iff.mp hx'
    exact hne (RelationName.mk.inj heq).2
  · have hn : (d.models.values.map Model.key).Nodup := hd.keyed.map_key ▸ d.models.keys_nodup
    refine (List.pairwise_map.mp hn).imp ?_
    intro m m' hne x hx x' hx' heq
    obtain ⟨_, _, rfl⟩ := List.mem_map.mp hx
    obtain ⟨_, _, rfl⟩ := List.mem_map.mp hx'
    exact hne (RelationName.mk.inj heq).1

theorem morphColumns_run (d : Draft) : Pass.morphColumns.body d =
    (d.pointers.forM fun x => Resolve.update (resolveMorphColumns x.1.model x.1.name x.2)) d := by
  unfold Draft.pointers
  rw [Resolve.forM_flatMap]
  simp only [List.forM_eq_forM, List.forM_map]
  rfl

theorem resolveMorphColumns_edited {k n : String} {link : MorphTo} (hn : (n, .morphTo) ∈ d.relationLines k)
    (hw : ∀ m, d.models.get? k = some m → m.columns.slot? n = some .pending)
    (h : resolveMorphColumns k n link d = .ok e) : Edited [.morphColumns] d e := by
  obtain ⟨_, shape, found, column, _, _, _, hf, rfl, rfl⟩ := resolveMorphColumns_ok_iff.mp h
  refine .of_modifyModel fun m hm => .single (.pair (by simp) ⟨hn, hw m hm, rfl, ?_⟩)
  exact morphColumn_indexedOnce (declaredRelation?_ok hf)

theorem resolveMorphColumns_apart {k n k' n' : String} {link : MorphTo} (hne : (⟨k, n⟩ : RelationName) ≠ ⟨k', n'⟩)
    (h : resolveMorphColumns k n link d = .ok e) : e.atPlace k' n' = d.atPlace k' n' := by
  obtain ⟨_, _, _, column, _, _, _, _, _, rfl⟩ := resolveMorphColumns_ok_iff.mp h
  refine Draft.atPlace_modifyModel fun hk m => atPlace_pair ?_ column
  rintro rfl
  exact hne (congrArg (RelationName.mk · n') hk)

theorem turns_morphColumns (hd : d.Sound) (hw : d.Awaits .morphTo) (h : Pass.morphColumns.body d = .ok () e) :
    Edited [.morphColumns] d e ∧ ∀ k n link, (⟨k, n⟩, link) ∈ d.pointers → ∃ c c',
      resolveMorphColumns k n link c = .ok c' ∧ Edited [.morphColumns] d c ∧ Edited [.morphColumns] c' e ∧
        e.atPlace k n = c'.atPlace k n := by
  rw [morphColumns_run] at h
  have hn := pointers_nodup hd
  have apart : ∀ x ∈ d.pointers, ∀ y ∈ d.pointers, y.1 ≠ x.1 → ∀ c c',
      Resolve.update (resolveMorphColumns y.1.model y.1.name y.2) c = .ok () c' →
        c'.standing x.1 = c.standing x.1 :=
    fun x _ y _ hne c c' hf => resolveMorphColumns_apart hne (Resolve.update_run_ok.mp hf)
  have turn : ∀ x ∈ d.pointers, ∀ c c', Edited [.morphColumns] d c → c.standing x.1 = d.standing x.1 →
      Resolve.update (resolveMorphColumns x.1.model x.1.name x.2) c = .ok () c' → Edited [.morphColumns] c c' := by
    rintro ⟨⟨k, n⟩, link⟩ hx c c' hc hv hf
    obtain ⟨m, r, hm, hr, hl⟩ := (mem_pointers_iff hd).mp hx
    have hline : (n, .morphTo) ∈ d.relationLines k := by
      have hk := ((hd.model k m hm).relation hr).2.1
      rwa [Relation.kind, hl] at hk
    exact resolveMorphColumns_edited (hc.relationLines k ▸ hline) (fun _ => hw.pending hline hv) (Resolve.update_run_ok.mp hf)
  refine ⟨Resolve.along_of_places hn apart turn h, fun k n link hx => ?_⟩
  obtain ⟨_, _, c, c', _, _, hf, h₁, _, h₂, _, hv⟩ := Resolve.exists_turn hn apart turn h hx
  exact ⟨c, c', Resolve.update_run_ok.mp hf, h₁, h₂, hv⟩

/-- The `morphTo` of a line, once resolved, is among the pointers. -/
theorem exists_pointer (hd : d.Sound) {k n : String} {m : Model} (hm : d.models.get? k = some m)
    (hn : (n, .morphTo) ∈ d.relationLines k) (hf : Filled k n d) : ∃ link, (⟨k, n⟩, link) ∈ d.pointers := by
  obtain ⟨r, hr⟩ := Option.isSome_iff_exists.mp (hf m hm)
  obtain ⟨_, hk, _⟩ := (hd.model k m hm).relation hr
  have hkind : r.link.kind = .morphTo := Draft.kind_unique hk hn
  cases hl : r.link with
  | morphTo link => exact ⟨link, (mem_pointers_iff hd).mpr ⟨m, r, hm, hr, hl⟩⟩
  | _ => rw [hl] at hkind; cases hkind

theorem edited_morphColumns (hd : d.Sound) (hw : d.Awaits .morphTo) (h : Pass.morphColumns.body d = .ok () e) :
    Edited [.morphColumns] d e ∧ ∀ k n, (n, .morphTo) ∈ d.relationLines k → Filled k n d → Placed k n e := by
  obtain ⟨hde, hall⟩ := turns_morphColumns hd hw h
  refine ⟨hde, fun k n hn hf m hm => ?_⟩
  obtain ⟨m₀, hm₀, _⟩ := hde.back hm
  obtain ⟨link, hx⟩ := exists_pointer hd hm₀ hn hf
  obtain ⟨c, c', hturn, _, hce, _⟩ := hall k n link hx
  obtain ⟨_, _, _, column, _, _, _, _, _, rfl⟩ := resolveMorphColumns_ok_iff.mp hturn
  have hp : Placed k n (c.modifyModel k fun m => { m with columns := m.columns.resolve n column }) := by
    intro m hm hn
    obtain ⟨_, _, rfl⟩ := Draft.exists_of_get?_modifyModel hm
    exact (Slots.mem_pendingKeys_resolve.mp hn).1 rfl
  exact hp.edited hce m hm

/-! ## Faults -/

theorem failsInSchema_morphTo : Resolve.FailsInSchema Pass.morphTo.body :=
  .bind (.inspect _) fun _ => .forM fun _ _ => .modify _

theorem failsInSchema_morphOneOrMany : Resolve.FailsInSchema Pass.morphOneOrMany.body :=
  .bind (.inspect _) fun _ => .forM fun _ _ => .update _

theorem failsInSchema_morphColumns : Resolve.FailsInSchema Pass.morphColumns.body :=
  .bind .get fun _ => .forM fun _ _ => .forM fun _ _ => .update _

end Schemata.Resolution
