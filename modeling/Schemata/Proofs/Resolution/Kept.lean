import Schemata.Proofs.Resolution.Along

/-!
# What edits keep

The columns of a model stay in order, and only the place of a `belongsTo` and a key that was added are ever given up. The
primary key stays, unless it goes with the key that was added.
-/

namespace Schemata.Resolution

variable {lines : List (String × RelationKind)} {keys : List String} {stages : List Stage} {m n o : Model}

/-! ## Columns by their names -/

/-- The model gives up the key that was added to it. -/
def GivesUpKey (m : Model) : Prop :=
  m.isPivot = true ∧ m.autoId = true

theorem columnNamed?_eq (m : Model) (name : String) :
    m.columnNamed? name = (m.columns.resolved.find? (·.2.name == name)).map Prod.snd := by
  unfold Model.columnNamed? Slots.values
  rw [List.find?_map]
  rfl

theorem columnNamed?_congr (h : n.columns = m.columns) (name : String) : n.columnNamed? name = m.columnNamed? name := by
  unfold Model.columnNamed?
  rw [h]

theorem find?_between {before after : List (String × Column)} {x : String × Column} {name : String} (h : x.2.name ≠ name) :
    (before ++ x :: after).find? (·.2.name == name) = (before ++ after).find? (·.2.name == name) := by
  rw [List.find?_append, List.find?_append, List.find?_cons_of_neg (by simpa using h)]

/-- A key column is put in its place only if no other column has its name. -/
theorem columnNamed?_placeKey {name X : String} {column c : Column} (hw : m.columns.slot? name = some .pending)
    (h : m.columnNamed? X = some c) : ∃ c', (placeKey name column m).columnNamed? X = some c' ∧ c'.untagged = c.untagged := by
  obtain ⟨before, after, hr, he, hv⟩ := Slots.exists_resolved_of_pending hw
  rw [columnNamed?_eq, hr] at h
  obtain ⟨x, hx, rfl⟩ := Option.map_eq_some_iff.mp h
  unfold placeKey
  split
  · rename_i key _
    refine ⟨if x.1 = key then x.2.forRelation name else x.2, ?_, by split <;> rfl⟩
    rw [columnNamed?_eq, Slots.resolved_modify, he, List.find?_map]
    have hp : ((fun y : String × Column => y.2.name == X) ∘
        fun (k, c) => (k, if k = key then Column.forRelation c name else c)) = fun y => y.2.name == X := by
      funext ⟨k, c⟩
      by_cases hk : k = key <;> simp [hk, Column.forRelation]
    rw [hp, hx]
    rfl
  · rename_i hk
    refine ⟨x.2, ?_, rfl⟩
    have hne : column.name ≠ X := by
      rintro rfl
      -- The column that is found has the name, and stands under another key.
      have hmem : x ∈ m.columns.resolved := hr ▸ List.mem_of_find?_eq_some hx
      have hkey : x.1 ≠ name := Slots.ne_of_pending hw (Slots.mem_resolved_iff.mp hmem)
      have hnone : m.columns.resolved.find? (fun y => y.1 != name && y.2.name == column.name) = none :=
        Option.map_eq_none_iff.mp hk
      exact List.find?_eq_none.mp hnone x hmem (by simpa [hkey] using List.find?_some hx)
    rw [columnNamed?_eq, hv column, find?_between hne, hx]
    rfl

/-! ## Steps -/

/-- What is kept of a model: its columns in order, apart from marks, and its key. -/
structure Kept (lines : List (String × RelationKind)) (m n : Model) : Prop where
  keys : n.columns.keys.Sublist m.columns.keys
  present {j} : j ∈ m.columns.keys → (j, .belongsTo) ∉ lines → j ∈ n.columns.keys ∨ j = "id" ∧ GivesUpKey n
  column {j c} : m.columns.get? j = some c →
    (∃ c', n.columns.get? j = some c' ∧ c'.untagged = c.untagged) ∨ j = "id" ∧ GivesUpKey n
  /-- The pair of a `morphTo` may hide a column of its name. -/
  named {name c} : m.columnNamed? name = some c →
    (∃ c', n.columnNamed? name = some c' ∧ c'.untagged = c.untagged) ∨ GivesUpKey n ∨
      ∃ j c', (j, .morphTo) ∈ lines ∧ n.columns.get? j = some c' ∧ c'.name = name
  primary : n.primary = m.primary ∨ n.primary = none ∧ GivesUpKey n
  givesUp : GivesUpKey m → GivesUpKey n

theorem Kept.of_same (hc : n.columns = m.columns) (hp : n.primary = m.primary) (hg : GivesUpKey m → GivesUpKey n) :
    Kept lines m n where
  keys := by rw [hc]
  present hj _ := .inl (hc ▸ hj)
  column hj := .inl ⟨_, hc ▸ hj, rfl⟩
  named h := .inl ⟨_, (columnNamed?_congr hc _).trans h, rfl⟩
  primary := .inl hp
  givesUp := hg

theorem Kept.refl (m : Model) : Kept lines m m :=
  .of_same rfl rfl id

theorem Kept.trans (h : Kept lines m n) (h' : Kept lines n o) : Kept lines m o where
  keys := h'.keys.trans h.keys
  present hj hl := by
    rcases h.present hj hl with hj | ⟨rfl, hg⟩
    · exact h'.present hj hl
    · exact .inr ⟨rfl, h'.givesUp hg⟩
  column hj := by
    rcases h.column hj with ⟨c', hc', hu⟩ | ⟨rfl, hg⟩
    · rcases h'.column hc' with ⟨c'', hc'', hu'⟩ | hg
      · exact .inl ⟨c'', hc'', hu'.trans hu⟩
      · exact .inr hg
    · exact .inr ⟨rfl, h'.givesUp hg⟩
  named hm := by
    rcases h.named hm with ⟨c', hc', hu⟩ | hg | ⟨j, c', hl, hc', hn⟩
    · rcases h'.named hc' with ⟨c'', hc'', hu'⟩ | hg | ⟨j, c'', hl, hc'', hn⟩
      · exact .inl ⟨c'', hc'', hu'.trans hu⟩
      · exact .inr (.inl hg)
      · exact .inr (.inr ⟨j, c'', hl, hc'', hn⟩)
    · exact .inr (.inl (h'.givesUp hg))
    · rcases h'.column hc' with ⟨c'', hc'', hu⟩ | ⟨_, hg⟩
      · exact .inr (.inr ⟨j, c'', hl, hc'', (Column.name_eq_of_untagged hu).trans hn⟩)
      · exact .inr (.inl hg)
  primary := by
    rcases h'.primary with hp | hp
    · rcases h.primary with hq | ⟨hq, hg⟩
      · exact .inl (hp.trans hq)
      · exact .inr ⟨hp.trans hq, h'.givesUp hg⟩
    · exact .inr hp
  givesUp hg := h'.givesUp (h.givesUp hg)

theorem primary_placeKey (name : String) (column : Column) (m : Model) : (placeKey name column m).primary = m.primary := by
  unfold placeKey
  split <;> rfl

theorem type_placeKey (name : String) (column : Column) (m : Model) : (placeKey name column m).type = m.type := by
  unfold placeKey
  split <;> rfl

theorem type_dropAddedKey (m : Model) : (dropAddedKey m).type = m.type := by
  unfold dropAddedKey
  split <;> rfl

theorem kept_placeKey {name : String} {column : Column} (hc : Fits lines .belongsTo m name column) :
    Kept lines m (placeKey name column m) := by
  have hname : name ∈ m.columns.keys := Slots.mem_keys_iff.mpr ⟨_, hc.pending⟩
  have hkeys : (placeKey name column m).columns.keys = m.columns.keys.filter (· != name) ∨
      (placeKey name column m).columns.keys = m.columns.keys := by
    unfold placeKey
    split
    · exact .inl ((Slots.keys_modify _ _ _).trans (Slots.keys_erase _ _))
    · exact .inr ((Slots.keys_resolve _ _ _).trans (if_pos hname))
  refine ⟨?_, fun {j} hj hl => .inl ?_, fun {j c} hj => .inl ?_, fun h => .inl (columnNamed?_placeKey hc.pending h),
    .inl (primary_placeKey _ _ _), fun hg => ?_⟩
  · rcases hkeys with h | h <;> rw [h]
    exact List.filter_sublist
  · have hne : j ≠ name := by
      rintro rfl
      exact hl hc.line
    rcases hkeys with h | h <;> rw [h]
    · exact List.mem_filter.mpr ⟨hj, by simpa using hne⟩
    · exact hj
  · have hne : j ≠ name := Slots.ne_of_pending hc.pending hj
    rw [← get?_iff_atPlace, atPlace_placeKey hne, get?_iff_atPlace]
    exact ⟨c, hj, rfl⟩
  · unfold GivesUpKey Model.isPivot
    rw [type_placeKey, (sameIdentity_placeKey name column m).autoId]
    exact hg

theorem kept_pair {name : String} {column : Column} (hc : Fits lines .morphTo m name column) :
    Kept lines m { m with columns := m.columns.resolve name column } := by
  have hname : name ∈ m.columns.keys := Slots.mem_keys_iff.mpr ⟨_, hc.pending⟩
  have hkeys : (m.columns.resolve name column).keys = m.columns.keys := (Slots.keys_resolve _ _ _).trans (if_pos hname)
  refine ⟨by rw [hkeys], fun hj _ => .inl (hkeys ▸ hj), fun {j c} hj => .inl ⟨c, ?_, rfl⟩, fun {X c} h => ?_, .inl rfl, id⟩
  · rw [Slots.get?_resolve, if_neg (Slots.ne_of_pending hc.pending hj)]
    exact hj
  · by_cases hX : column.name = X
    · exact .inr (.inr ⟨name, column, hc.line, by rw [Slots.get?_resolve, if_pos rfl], hX⟩)
    · obtain ⟨before, after, hr, _, hv⟩ := Slots.exists_resolved_of_pending hc.pending
      refine .inl ⟨c, ?_, rfl⟩
      rw [columnNamed?_eq] at h ⊢
      rw [hv column, find?_between hX, ← hr]
      exact h

theorem kept_dropAddedKey (m : Model) : Kept lines m (dropAddedKey m) := by
  unfold dropAddedKey
  split
  · rename_i hg
    have hg : GivesUpKey m := by simpa [GivesUpKey] using hg
    have hkeys : (m.columns.erase "id").keys = m.columns.keys.filter (· != "id") := Slots.keys_erase _ _
    refine ⟨hkeys ▸ List.filter_sublist, fun {j} hj _ => ?_, fun {j c} hj => ?_, fun _ => .inr (.inl hg), .inr ⟨rfl, hg⟩, id⟩
    · by_cases h : j = "id"
      · exact .inr ⟨h, hg⟩
      · exact .inl (hkeys ▸ List.mem_filter.mpr ⟨hj, by simpa using h⟩)
    · by_cases h : j = "id"
      · exact .inr ⟨h, hg⟩
      · exact .inl ⟨c, by rw [Slots.get?_erase, if_neg h]; exact hj, rfl⟩
  · exact .refl m

theorem Edit.kept (h : Edit lines keys stages m n) : Kept lines m n := by
  cases h with
  | claim _ ht => exact .of_same rfl rfl fun hg => ⟨ht, hg.2⟩
  | placeKey _ hc => exact kept_placeKey hc
  | dropAddedKey _ => exact kept_dropAddedKey m
  | pair _ hc => exact kept_pair hc
  | _ => exact .of_same rfl rfl id

/-! ## Runs -/

variable {d e : Draft} {k : String}

theorem Edited.kept (h : Edited stages d e) (hm : d.models.get? k = some m) (hn : e.models.get? k = some n) :
    Kept (d.relationLines k) m n :=
  h.keeps (P := Kept (d.relationLines k) m) (fun hs hP => hP.trans hs.kept) hm hn (.refl m)

/-- The stage that makes the key columns of a kind. -/
def keyStage : RelationKind → Stage
  | .morphTo => .morphColumns
  | kind => kind.stage

theorem Draft.Awaits.edited {kind : RelationKind} (hd : d.Sound) (hw : d.Awaits kind) (h : Edited stages d e)
    (hs : keyStage kind ∉ stages) : e.Awaits kind := by
  intro k n j hn hj
  rw [h.relationLines] at hj
  obtain ⟨m, hm, _⟩ := h.back hn
  refine (h.keeps (P := fun m => Resolution.Sound (d.relationLines k) d.models.keys m ∧ m.columns.slot? j = some .pending)
    (fun he hP => ⟨hP.1.edit he, ?_⟩) hm hn ⟨hd.model k m hm, hw k m j hm hj⟩).2
  cases he with
  | @placeKey name _ hp hc =>
    have hne : j ≠ name := by
      rintro rfl
      exact hs (kind_unique hj hc.line ▸ hp)
    rw [pending_iff_atPlace, atPlace_placeKey hne, ← pending_iff_atPlace]
    exact hP.2
  | dropAddedKey _ =>
    unfold dropAddedKey
    split
    · rename_i hg
      rw [Slots.slot?_erase, if_neg]
      · exact hP.2
      · rintro rfl
        exact hP.1.addedKey (by simp_all) _ hj
    · exact hP.2
  | @pair name column hp hc =>
    have hne : j ≠ name := by
      rintro rfl
      exact hs (kind_unique hj hc.line ▸ hp)
    rw [pending_iff_atPlace, atPlace_pair hne, ← pending_iff_atPlace]
    exact hP.2
  | _ => exact hP.2

/-- A reference means the same model throughout, since models keep their order, their keys and their classes. -/
theorem Edited.findModel? (h : Edited stages d e) : e.findModel? = d.findModel? := by
  refine Draft.findModel?_of_values h.keys (OrderedMap.map_values_eq h.keys fun k m n hm hn => ?_)
  have hsame := h.sameIdentity Edit.sameIdentity hm hn
  rw [hsame.className, hsame.key]

theorem Edited.target (h : Edited stages d e) (l : DeclaredRelation) : e.target l = d.target l :=
  Draft.target_congr h.findModel? l

/-! ## Relations -/

/-- A relation of another stage stays as it is, apart from its parents. -/
theorem Edited.relation (h : Edited stages d e) {j : String} {r : Relation} (hl : (j, r.kind) ∈ d.relationLines k)
    (hs : r.kind.stage ∉ stages) (hm : d.models.get? k = some m) (hn : e.models.get? k = some n)
    (hr : m.relations.get? j = some r) : ∃ r', n.relations.get? j = some r' ∧ r'.withoutParents = r.withoutParents := by
  refine h.keeps (P := fun m => ∃ r', m.relations.get? j = some r' ∧ r'.withoutParents = r.withoutParents) ?_ hm hn ⟨r, hr, rfl⟩
  rintro m n he ⟨r', hr', hp⟩
  cases he with
  | @fill name _ link hstage hline _ _ =>
    have hne : j ≠ name := by
      rintro rfl
      rw [Draft.kind_unique hl hline] at hs
      exact hs hstage
    exact ⟨r', by rw [Slots.get?_resolve, if_neg hne]; exact hr', hp⟩
  | @addParent name parent _ _ =>
    by_cases hj : j = name
    · refine ⟨r'.mapMorphTo (·.addModel parent), ?_, (r'.withoutParents_addModel parent).trans hp⟩
      rw [Slots.get?_modify, if_pos hj, hr', Option.map_some]
    · exact ⟨r', by rw [Slots.get?_modify, if_neg hj]; exact hr', hp⟩
  | placeKey _ _ => exact ⟨r', by rw [relations_placeKey]; exact hr', hp⟩
  | dropAddedKey _ => exact ⟨r', by rw [relations_dropAddedKey]; exact hr', hp⟩
  | _ => exact ⟨r', hr', hp⟩

/-- A pointer stays, and its pair keeps its name, whatever parents it learns of. -/
theorem Edited.pointer (h : Edited stages d e) (hd : d.Sound) (hs : .morphTo ∉ stages) (hm : d.models.get? k = some m)
    (hn : e.models.get? k = some n) {j : String} {r : Relation} (hr : m.relations.get? j = some r) {t : MorphTo}
    (ht : r.link = .morphTo t) :
    ∃ r' t', n.relations.get? j = some r' ∧ r'.link = .morphTo t' ∧ t'.columnName = t.columnName := by
  have hkind : r.kind = .morphTo := congrArg Link.kind ht
  obtain ⟨r', hr', hp⟩ := h.relation ((hd.model k m hm).relation hr).2.1 (hkind ▸ hs) hm hn hr
  obtain ⟨models, rfl⟩ := Relation.exists_morphTo hp ht
  exact ⟨_, _, hr', rfl, rfl⟩

/-- The link that a turn gives to its line stays if no later stage fills links of that kind. Only a `morphTo` learns of parents. -/
theorem TurnIn.relation {stages' : List Stage} {read : Draft → Except SchemaFault (List DeclaredRelation)}
    {f : DeclaredRelation → Resolve Unit} {l : DeclaredRelation} {c c' e' : Draft} {link : Link}
    (ht : TurnIn stages read f d e l c (c'.resolveRelation l link)) (h : Edited stages' e e') (hk : link.kind = l.kind)
    (hs : link.kind.stage ∉ stages') (hp : link.kind ≠ .morphTo) (hn : e'.models.get? l.model = some n) :
    n.relations.get? l.name = some ⟨l.name, l.methods, link⟩ := by
  obtain ⟨m, hm, _⟩ := h.back hn
  obtain ⟨_, _, _, r, hr, hwithout⟩ := ht.resolved hm
  obtain rfl := Relation.eq_of_withoutParents hwithout hp
  have hline : (l.name, link.kind) ∈ e.relationLines l.model := by
    rw [((trans_of (Edited stages) ht.before ht.edited).append ht.after).relationLines, hk]
    exact ht.declares.line
  obtain ⟨r', hr', hwithout'⟩ := h.relation (r := ⟨l.name, l.methods, link⟩) hline hs hm hn hr
  rw [hr', Relation.eq_of_withoutParents hwithout' hp]

/-- Relations are filled in their stages, and have no parents before those in which parents are added. -/
theorem Edited.fresh (h : Edited stages d e) (hm : d.models.get? k = some m) (hn : e.models.get? k = some n)
    (hnone : ∀ j, m.relations.get? j = none) {j : String} {r : Relation} (hr : n.relations.get? j = some r) :
    r.kind.stage ∈ stages ∧ (.morphOneOrMany ∉ stages ∧ .morphToMany ∉ stages → r.link.parents = []) := by
  refine h.keeps (P := fun o => ∀ j r, o.relations.get? j = some r →
    r.kind.stage ∈ stages ∧ (.morphOneOrMany ∉ stages ∧ .morphToMany ∉ stages → r.link.parents = [])) ?_ hm hn ?_ j r hr
  · intro m n he hP j r hr
    cases he with
    | fill hs _ _ hp =>
      rw [Slots.get?_resolve] at hr
      split at hr
      · obtain rfl := Option.some_inj.mp hr
        exact ⟨hs, fun _ => hp⟩
      · exact hP j r hr
    | @addParent name parent hs _ =>
      rw [Slots.get?_modify] at hr
      split at hr
      · obtain ⟨r₀, hr₀, rfl⟩ := Option.map_eq_some_iff.mp hr
        rw [Relation.kind_mapMorphTo]
        exact ⟨(hP j r₀ hr₀).1, fun hno => (hs.elim hno.1 hno.2).elim⟩
      · exact hP j r hr
    | placeKey _ _ => exact hP j r (relations_placeKey _ _ _ ▸ hr)
    | dropAddedKey _ => exact hP j r (relations_dropAddedKey _ ▸ hr)
    | _ => exact hP j r hr
  · intro j r hr
    rw [hnone] at hr
    cases hr

theorem Edited.relations (h : Edited stages d e) (hs : stages ⊆ [.pivotModels, .morphColumns, .modelAttributes])
    (hm : d.models.get? k = some m) (hn : e.models.get? k = some n) : n.relations = m.relations := by
  refine h.keeps (P := fun o => o.relations = m.relations) (fun he hP => ?_) hm hn rfl
  cases he with
  | @fill _ _ link hk _ _ _ =>
    have hk := hs hk
    cases link <;> simp [Link.kind, RelationKind.stage] at hk
  | addParent hk _ => rcases hk with hk | hk <;> exact absurd (hs hk) (by decide)
  | placeKey _ _ => exact (relations_placeKey _ _ _).trans hP
  | dropAddedKey _ => exact (relations_dropAddedKey _).trans hP
  | _ => exact hP

/-! ## Keys -/

theorem Edited.primary (h : Edited stages d e) (hs : .pivotModels ∉ stages) (hm : d.models.get? k = some m)
    (hn : e.models.get? k = some n) : n.primary = m.primary := by
  refine h.keeps (P := fun o => o.primary = m.primary) (fun he hP => ?_) hm hn rfl
  cases he with
  | placeKey _ _ => exact (primary_placeKey _ _ _).trans hP
  | dropAddedKey hk => exact absurd hk hs
  | _ => exact hP

theorem Edited.type (h : Edited stages d e) (hs : .belongsToMany ∉ stages ∧ .morphToMany ∉ stages)
    (hm : d.models.get? k = some m) (hn : e.models.get? k = some n) : n.type = m.type := by
  refine h.keeps (P := fun o => o.type = m.type) (fun he hP => ?_) hm hn rfl
  cases he with
  | claim hk _ => exact (hk.elim hs.1 hs.2).elim
  | placeKey _ _ => exact (type_placeKey _ _ _).trans hP
  | dropAddedKey _ => exact (type_dropAddedKey _).trans hP
  | _ => exact hP

theorem softDelete_placeKey (name : String) (column : Column) (m : Model) :
    (placeKey name column m).softDelete = m.softDelete := by
  unfold placeKey
  split <;> rfl

theorem softDelete_dropAddedKey (m : Model) : (dropAddedKey m).softDelete = m.softDelete := by
  unfold dropAddedKey
  split <;> rfl

theorem Edited.softDelete (h : Edited stages d e) (hm : d.models.get? k = some m) (hn : e.models.get? k = some n) :
    n.softDelete = m.softDelete := by
  refine h.keeps (P := fun o => o.softDelete = m.softDelete) (fun he hP => ?_) hm hn rfl
  cases he with
  | placeKey _ _ => exact (softDelete_placeKey _ _ _).trans hP
  | dropAddedKey _ => exact (softDelete_dropAddedKey _).trans hP
  | _ => exact hP

/-- A column stays in its place until keys are given up. -/
theorem Edited.column (h : Edited stages d e) (hs : .pivotModels ∉ stages) (hm : d.models.get? k = some m)
    (hn : e.models.get? k = some n) {j : String} {c : Column} (hc : m.columns.get? j = some c) :
    ∃ c', n.columns.get? j = some c' ∧ c'.untagged = c.untagged := by
  refine h.keeps (P := fun o => ∃ c', o.columns.get? j = some c' ∧ c'.untagged = c.untagged) ?_ hm hn ⟨c, hc, rfl⟩
  rintro m n he ⟨c', hc', hu⟩
  cases he with
  | placeKey _ hf =>
    rw [← get?_iff_atPlace, atPlace_placeKey (Slots.ne_of_pending hf.pending hc'), get?_iff_atPlace]
    exact ⟨c', hc', hu⟩
  | dropAddedKey hk => exact absurd hk hs
  | pair _ hf =>
    exact ⟨c', by rw [Slots.get?_resolve, if_neg (Slots.ne_of_pending hf.pending hc')]; exact hc', hu⟩
  | _ => exact ⟨c', hc', hu⟩

/-- A column is found by its name until keys are given up and pairs are made. -/
theorem Edited.columnNamed? (h : Edited stages d e) (hs : .pivotModels ∉ stages ∧ .morphColumns ∉ stages)
    (hm : d.models.get? k = some m) (hn : e.models.get? k = some n) {name : String} {c : Column}
    (hc : m.columnNamed? name = some c) : ∃ c', n.columnNamed? name = some c' ∧ c'.untagged = c.untagged := by
  refine h.keeps (P := fun o => ∃ c', o.columnNamed? name = some c' ∧ c'.untagged = c.untagged) ?_ hm hn ⟨c, hc, rfl⟩
  rintro m n he ⟨c', hc', hu⟩
  cases he with
  | placeKey _ hf =>
    obtain ⟨c'', hc'', hu'⟩ := columnNamed?_placeKey hf.pending hc'
    exact ⟨c'', hc'', hu'.trans hu⟩
  | dropAddedKey hk => exact absurd hk hs.1
  | pair hk _ => exact absurd hk hs.2
  | _ => exact ⟨c', hc', hu⟩

/-- What refers to a key goes by the same name and has the same builder, unless a pair of that name hides the key's column. -/
theorem Kept.refers (h : Kept lines m n) {c : Column} (hc : m.primaryColumn? = some c)
    (stripped : GivesUpKey n → n.primary = none)
    (added : GivesUpKey n → m.primaryName = "id" ∧ m.foreignMethod = ("unsignedBigInteger", [])) :
    (n.primary = none ↔ GivesUpKey n) ∧ n.primaryName = m.primaryName ∧
      ((∀ j c, (j, .morphTo) ∈ lines → n.columns.get? j = some c → c.name ≠ n.primaryName) →
        n.foreignMethod = m.foreignMethod) := by
  obtain ⟨key, hkey, hc⟩ := Option.bind_eq_some_iff.mp hc
  by_cases hg : GivesUpKey n
  · have hnone := stripped hg
    obtain ⟨hname, hmethod⟩ := added hg
    refine ⟨iff_of_true hnone hg, ?_, fun _ => ?_⟩
    · rw [hname, Model.primaryName, hnone]
      rfl
    · rw [hmethod]
      simp [Model.foreignMethod, Model.primaryColumn?, Model.hasUuidKey, hnone]
  · have hp : n.primary = m.primary := h.primary.resolve_right fun hp => hg hp.2
    have hname : n.primaryName = key.column := by rw [Model.primaryName, hp, hkey]; rfl
    refine ⟨iff_of_false (by simp [hp, hkey]) hg, by rw [Model.primaryName, Model.primaryName, hp], fun hpair => ?_⟩
    rcases h.named hc with ⟨c', hc', hu⟩ | hgives | ⟨j, c', hl, hj, hn⟩
    · have hn : n.primaryColumn? = some c' := by rw [Model.primaryColumn?, hp, hkey]; exact hc'
      have hm : m.primaryColumn? = some c := by rw [Model.primaryColumn?, hkey]; exact hc
      rw [Model.foreignMethod, Model.foreignMethod, hn, hm]
      exact Column.foreignMethod_eq_of_untagged hu
    · exact absurd hgives hg
    · exact absurd (hn.trans hname.symm) (hpair j c' hl hj)

/-- The column of a key that is kept is kept in its place, whatever the look-up by its name comes to. -/
theorem Kept.keyColumn (h : Kept lines m n) {c : Column} (hc : m.primaryColumn? = some c)
    (stripped : GivesUpKey n → n.primary = none) (hn : n.primary ≠ none) :
    ∃ j key, m.columns.get? j = some c ∧ n.columns.get? j = some key ∧ key.untagged = c.untagged ∧
      key.name = n.primaryName := by
  obtain ⟨p, hp, hc⟩ := Option.bind_eq_some_iff.mp hc
  have hprimary : n.primary = m.primary := h.primary.resolve_right fun hp => hn hp.1
  have hname : n.primaryName = p.column := by
    rw [Model.primaryName, hprimary, hp]
    rfl
  obtain ⟨j, hj⟩ := Slots.mem_values_iff.mp (List.mem_of_find?_eq_some hc)
  rcases h.column hj with ⟨key, hkey, hu⟩ | ⟨_, hg⟩
  · have hc : c.name = p.column := by simpa using List.find?_some hc
    exact ⟨j, key, hj, hkey, hu, (Column.name_eq_of_untagged hu).trans (hc.trans hname.symm)⟩
  · exact absurd (stripped hg) hn

end Schemata.Resolution
