import Schemata.Proofs.Resolution.Inverses
import Schemata.Proofs.Resolution.Links

/-!
# Marks of key columns

A column that serves a relation is marked with the name of that relation. A `belongsTo` marks the column that is made for it, or the
declared one that serves instead, and a later one may take a mark over. So the mark of a column always leads to a relation that rests
on the column.
-/

namespace Schemata

theorem Column.relation_liftComment (c : Column) : c.liftComment.relation = c.relation := by
  unfold liftComment
  split <;> rfl

/-- A line of its own marks no column. -/
theorem Column.relation_ofLine (key : String) (call : Shorthand.Call) : (ofLine key call).relation = none := by
  have made : ∀ (b : Bool) (c : Column), c.relation = none →
      (if b = true then c.liftComment else c.liftComment.qualify "primary").relation = none := by
    intro b c hc
    split <;> exact (relation_liftComment c).trans hc
  have huuid : (ofUuidLine call).relation = none := by
    unfold ofUuidLine
    cases call.first? with
    | none => exact made _ _ rfl
    | some m => by_cases h : m.name = "uuid" <;> simp only [h, if_true, if_false] <;> exact made _ _ rfl
  unfold ofLine
  split
  · exact made _ _ rfl
  · split
    · exact huuid
    · split
      · exact relation_liftComment _
      · split <;> rfl

namespace Resolution

variable {d e : Draft} {l : DeclaredRelation} {lines : List (String × RelationKind)} {keys : List String} {stages : List Stage}
  {k name : String} {m n : Model} {link : BelongsTo}

/-- The marks of a model hold: each leads to a pointer, whose pair of columns is marked, or to the `belongsTo` that has the marked
column as its key. -/
def MarksHold (lines : List (String × RelationKind)) (m : Model) : Prop :=
  ∀ place column name, m.columns.get? place = some column → column.relation = some name →
    (name, .morphTo) ∈ lines ∨ ∃ link, BelongsAt m name link ∧ link.columnKey = column.name

/-! ## Turns of `belongsTo` lines -/

/-- A `belongsTo` that no column is marked with yet marks its key column. -/
theorem MarksHold.placeKey (hm : MarksHold lines m) (hfree : ∀ place c, m.columns.get? place = some c → c.relation ≠ some name)
    {column : Column} (hmark : column.relation = some name) {r : Relation} (hlink : r.link = .belongsTo link)
    (hkey : link.columnKey = column.name) :
    MarksHold lines { Resolution.placeKey name column m with
      relations := (Resolution.placeKey name column m).relations.resolve name r } := by
  have hplaced : BelongsAt { Resolution.placeKey name column m with
      relations := (Resolution.placeKey name column m).relations.resolve name r } name link :=
    ⟨r, by rw [Slots.get?_resolve, if_pos rfl], hlink⟩
  intro place c other hc hother
  rcases get?_placeKey hc with rfl | ⟨c₀, hc₀, rfl | ⟨rfl, hname⟩⟩
  · obtain rfl := Option.some_inj.mp (hmark.symm.trans hother)
    exact .inr ⟨link, hplaced, hkey⟩
  · rcases hm place c other hc₀ hother with hline | ⟨link', ⟨r', hr', hlink'⟩, hkey'⟩
    · exact .inl hline
    · have hne : other ≠ name := fun heq => hfree place c hc₀ (heq ▸ hother)
      exact .inr ⟨link', ⟨r', by rw [Slots.get?_resolve, if_neg hne, relations_placeKey, hr'], hlink'⟩, hkey'⟩
  · obtain rfl : name = other := Option.some_inj.mp hother
    exact .inr ⟨link, hplaced, hkey.trans hname.symm⟩

/-- Where the relation of a line is still to be made, no column is marked with it. -/
theorem MarksHold.free (hm : MarksHold (d.relationLines l.model) m) (hl : d.Declares l) (hk : l.kind = .belongsTo)
    (hnone : m.relations.get? l.name = none) : ∀ place c, m.columns.get? place = some c → c.relation ≠ some l.name := by
  intro place c hc hmark
  rcases hm place c l.name hc hmark with hline | ⟨link, ⟨r, hr, _⟩, _⟩
  · cases hk.symm.trans (Draft.kind_unique hl.line hline)
  · cases hnone.symm.trans hr

/-! ## Steps of later stages -/

theorem BelongsAt.edit (h : BelongsAt m name link) (he : Edit lines keys stages m n) (hs : .belongsTo ∉ stages)
    (hm : Sound lines keys m) : BelongsAt n name link := by
  obtain ⟨r, hr, hlink⟩ := h
  have hkind : r.kind = .belongsTo := congrArg Link.kind hlink
  cases he with
  | @fill name' methods link' hstage hline _ _ =>
    have hne : name ≠ name' := by
      rintro rfl
      rw [← hm.kind_eq hr hline, hkind] at hstage
      exact hs hstage
    exact ⟨r, by rw [Slots.get?_resolve, if_neg hne, hr], hlink⟩
  | @addParent name' parent _ _ =>
    by_cases hname : name = name'
    · refine ⟨r.mapMorphTo (·.addModel parent), by rw [Slots.get?_modify, if_pos hname, hr, Option.map_some], ?_⟩
      rw [← Relation.belongsTo?_eq_some_iff, Relation.belongsTo?_mapMorphTo, Relation.belongsTo?_eq_some_iff]
      exact hlink
    · exact ⟨r, by rw [Slots.get?_modify, if_neg hname, hr], hlink⟩
  | placeKey hstage _ => exact absurd hstage hs
  | dropAddedKey _ => exact ⟨r, by rw [relations_dropAddedKey, hr], hlink⟩
  | _ => exact ⟨r, hr, hlink⟩

theorem MarksHold.edit (h : MarksHold lines m) (he : Edit lines keys stages m n) (hs : .belongsTo ∉ stages)
    (hm : Sound lines keys m) : MarksHold lines n := by
  -- A column that was there keeps its mark, since what the mark leads to is kept.
  have kept : ∀ {place c other}, m.columns.get? place = some c → c.relation = some other →
      (other, .morphTo) ∈ lines ∨ ∃ link, BelongsAt n other link ∧ link.columnKey = c.name := by
    intro place c other hc hother
    rcases h place c other hc hother with hline | ⟨link, hlink, hkey⟩
    · exact .inl hline
    · exact .inr ⟨link, hlink.edit he hs hm, hkey⟩
  intro place c other hc hother
  cases he with
  | placeKey hstage _ => exact absurd hstage hs
  | dropAddedKey _ => exact kept (get?_dropAddedKey hc) hother
  | @pair name column _ hf =>
    rw [Slots.get?_resolve] at hc
    split at hc
    · obtain rfl := Option.some_inj.mp hc
      obtain rfl := Option.some_inj.mp (hf.relation.symm.trans hother)
      exact .inl hf.line
    · exact kept hc hother
  | _ => exact kept hc hother

namespace Course

variable {settings : Settings} {schema : SchemaDeclaration} (c : Course settings schema)

theorem marksHold_declared (hm : c.declared.models.get? k = some m) : MarksHold (c.declared.relationLines k) m := by
  intro place column name hc hmark
  obtain ⟨s, _, hl⟩ := c.founded_laid.2 k m hm
  obtain ⟨line, _, hslot⟩ := hl.slot?_eq_some_iff.mp (Slots.get?_eq_some_iff.mp hc)
  unfold columnSlot? at hslot
  split at hslot
  · split at hslot <;> cases hslot
  · cases hslot
    rw [Column.relation_ofLine] at hmark
    cases hmark

theorem marksHold_owned (hm : c.owned.models.get? k = some m) : MarksHold (c.declared.relationLines k) m := by
  have hw : c.declared.Awaits .belongsTo := awaits_of_laid c.founded_laid.2 rfl
  refine holds_of_lines (P := fun d => ∀ k m, d.models.get? k = some m → MarksHold (c.declared.relationLines k) m)
    Draft.lists_of_declaredRelations (fun hne hf => resolveBelongsTo_apart hne (Resolve.update_run_ok.mp hf))
    (fun {l d d'} (hd : Edited [.belongsTo] c.declared d) hmarks hl hk hv hf => ?_) c.belongsTo (fun k m hm => c.marksHold_declared hm) k m hm
  have hf := Resolve.update_run_ok.mp hf
  have hk : l.kind = .belongsTo := List.mem_singleton.mp hk
  refine ⟨resolveBelongsTo_edited (c.sound_declared.edited hd) (hl.along hd) hk
    (fun m hm => hw.pending (hk ▸ hl.line) hv hm) hf, fun k n hn => ?_⟩
  obtain ⟨key, target, column, _, _, hcolumn, rfl⟩ := resolveBelongsTo_ok_iff.mp hf
  by_cases heq : k = l.model
  · subst heq
    obtain ⟨o, ho, rfl⟩ := Draft.exists_of_get?_modifyModel hn
    obtain ⟨m, hm, rfl⟩ := Draft.exists_of_get?_modifyModel ho
    -- The relation of the line is not there yet, as when the pass began.
    have hnone : m.relations.get? l.name = none := by
      obtain ⟨m₀, hm₀, _⟩ := hd.back hm
      obtain ⟨s, _, hlaid⟩ := c.founded_laid.2 _ m₀ hm₀
      rw [Draft.atPlace_of_get? hm, Draft.atPlace_of_get? hm₀] at hv
      have hplace : (m.relations.get? l.name).map Relation.withoutParents = (m₀.relations.get? l.name).map Relation.withoutParents :=
        congrArg Prod.snd (Option.some_inj.mp hv)
      rwa [hlaid.relations, Option.map_none, Option.map_eq_none_iff] at hplace
    obtain ⟨_, _, rfl, _⟩ := keyColumn_ok hcolumn
    exact (hmarks _ m hm).placeKey ((hmarks _ m hm).free hl hk hnone) rfl rfl rfl
  · rw [Draft.resolveRelation, Draft.get?_modifyModel, if_neg heq, Draft.get?_modifyModel, if_neg heq] at hn
    exact hmarks k n hn

/-- In the end, the mark of a column leads to its relation. -/
theorem marksHold (hm : c.complete.models.get? k = some m) : MarksHold (c.declared.relationLines k) m := by
  obtain ⟨m₁, hm₁, _⟩ := c.edited_owned.back hm
  have hlines : c.owned.relationLines k = c.declared.relationLines k := c.reaches_owned.1.relationLines k
  have hkept : Sound (c.owned.relationLines k) c.owned.models.keys m ∧ MarksHold (c.owned.relationLines k) m :=
    c.edited_owned.keeps (P := fun o => Sound (c.owned.relationLines k) c.owned.models.keys o ∧ MarksHold (c.owned.relationLines k) o)
      (fun hstep hP => ⟨hP.1.edit hstep, hP.2.edit hstep (by decide) hP.1⟩) hm₁ hm
      ⟨c.sound_owned.model k m₁ hm₁, hlines ▸ c.marksHold_owned hm₁⟩
  exact hlines ▸ hkept.2

/-- A column that is marked with a `belongsTo` is the key column of that relation. -/
theorem columnKey_of_mark (hm : c.complete.models.get? k = some m) {place : String} {column : Column}
    (hcolumn : m.columns.get? place = some column) (hmark : column.relation = some name) (hlink : BelongsAt m name link) :
    link.columnKey = column.name := by
  obtain ⟨r, hr, hlink⟩ := hlink
  rcases c.marksHold hm place column name hcolumn hmark with hline | ⟨link', ⟨r', hr', hlink'⟩, hkey⟩
  · have hkind := (c.founded.sound.model k m hm).kind_eq hr (c.edited_declared.relationLines k ▸ hline)
    unfold Relation.kind at hkind
    rw [hlink] at hkind
    cases hkind
  · obtain rfl := Option.some_inj.mp (hr.symm.trans hr')
    obtain rfl := Link.belongsTo.inj (hlink.symm.trans hlink')
    exact hkey

end Course

end Resolution

end Schemata
