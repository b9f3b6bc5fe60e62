import Schemata.Proofs.Resolution.KeyColumns

/-!
# Pointers

A `morphTo` of a complete draft has the name that its line gives it, parents whose keys are alike, and in its place the column
pair that follows from both.
-/

namespace Schemata.Resolution

open Schemata.Shorthand

variable {settings : Settings} {schema : SchemaDeclaration} {k n : String} {m : Model}

/-! ## Shapes of keys -/

theorem commonShape?_eq_some_iff {parents : List Model} {shape : KeyShape} : commonShape? parents = some shape ↔
    parents ≠ [] ∧ shape.isUsable = true ∧ ∀ m ∈ parents, KeyShape.of m = shape := by
  cases parents with
  | nil => simp [commonShape?]
  | cons m rest =>
    simp only [commonShape?, Bool.and_eq_true, List.all_eq_true, decide_eq_true_eq, List.forall_mem_cons]
    constructor
    · intro h
      split at h
      · rename_i hp
        obtain rfl := Option.some_inj.mp h
        exact ⟨by simp, hp.1, rfl, hp.2⟩
      · cases h
    · rintro ⟨_, hu, rfl, hall⟩
      rw [if_pos ⟨hu, hall⟩]

theorem KeyShape.of_eq {m n : Model} (h : n.primary = m.primary) : KeyShape.of n = KeyShape.of m := by
  unfold KeyShape.of Model.hasAutoIncrementKey Model.hasUuidKey
  rw [h]

/-- There are parents, and their keys have one shape, which a pointer can hold. -/
structure Agree (models : OrderedMap Model) (parents : List String) (shape : KeyShape) : Prop where
  nonempty : parents ≠ []
  usable : shape.isUsable = true
  shape : ∀ p ∈ parents, ∃ m, models.get? p = some m ∧ KeyShape.of m = shape

theorem agree_of_commonShape? {d : Draft} {keys : List String} {parents : List Model} {shape : KeyShape} (hne : keys ≠ [])
    (hp : keys.mapM d.model = .ok parents) (hs : commonShape? parents = some shape) : Agree d.models keys shape := by
  obtain ⟨_, husable, hall⟩ := commonShape?_eq_some_iff.mp hs
  refine ⟨hne, husable, fun p hp' => ?_⟩
  obtain ⟨m, hm, hmodel⟩ := exists_mem_of_forall₂ (mapM_eq_ok.mp hp) hp'
  exact ⟨m, Draft.model_eq_ok.mp hmodel, hall m hm⟩

theorem Agree.of_edited {stages : List Stage} {d e : Draft} {keys : List String} {shape : KeyShape} (he : Edited stages d e)
    (hs : .pivotModels ∉ stages) : Agree d.models keys shape ↔ Agree e.models keys shape := by
  constructor
  · rintro ⟨hne, husable, hshape⟩
    refine ⟨hne, husable, fun p hp => ?_⟩
    obtain ⟨m, hm, hshape⟩ := hshape p hp
    obtain ⟨n, hn, _⟩ := he.model hm
    exact ⟨n, hn, (KeyShape.of_eq (he.primary hs hm hn)).trans hshape⟩
  · rintro ⟨hne, husable, hshape⟩
    refine ⟨hne, husable, fun p hp => ?_⟩
    obtain ⟨n, hn, hshape⟩ := hshape p hp
    obtain ⟨m, hm, _⟩ := he.back hn
    exact ⟨m, hm, (KeyShape.of_eq (he.primary hs hm hn)).symm.trans hshape⟩

/-! ## Column pairs -/

/-- A column pair has the qualifiers of its line in order, without the first comment and without `nullable`. -/
theorem morphColumn_eq (relation : String) (link : MorphTo) (shape : KeyShape) (qualifiers : Call) :
    morphColumn relation link shape qualifiers =
      ⟨link.columnName, morphType link.nullable shape.uuid, [],
        ⟨(qualifiers.methods.filter (·.name != "nullable")).eraseP (·.name == "comment")⟩, some relation,
        (qualifiers.find? "comment").bind (·.value? 0)⟩ := by
  have htype : (morphType link.nullable shape.uuid == "comment") = false := by
    cases link.nullable <;> cases shape.uuid <;> decide
  have hcomment : (qualifiers.methods.filter (·.name != "nullable")).find? (·.name == "comment") =
      qualifiers.methods.find? (·.name == "comment") := by
    rw [List.find?_filter]
    congr 1
    funext x
    by_cases hx : x.name = "comment" <;> simp [hx]
  have hfind : (Call.single (morphType link.nullable shape.uuid) [] ++ qualifiers.removeAll "nullable").find? "comment" =
      qualifiers.find? "comment" := by
    unfold Call.find?
    rw [Call.methods_append]
    exact (List.find?_cons_of_neg (by simp [htype])).trans hcomment
  have hremove : (Call.single (morphType link.nullable shape.uuid) [] ++ qualifiers.removeAll "nullable").remove "comment" =
      ⟨⟨morphType link.nullable shape.uuid, []⟩ ::
        (qualifiers.methods.filter (·.name != "nullable")).eraseP (·.name == "comment")⟩ := by
    unfold Call.remove
    rw [Call.methods_append]
    exact congrArg Call.mk (List.eraseP_cons_of_neg (by simp [htype]))
  unfold morphColumn Column.ofCall
  dsimp only
  rw [hfind, hremove]
  rfl

/-- The place of a model holds the column pair of a name. -/
def HasPair (m : Model) (place name : String) : Prop :=
  ∃ column, m.columns.get? place = some column ∧ column.physicalNames = [name ++ "_type", name ++ "_id"]

theorem HasPair.name_eq {place name name' : String} (h : HasPair m place name) (h' : HasPair m place name') :
    name' = name := by
  obtain ⟨column, hcolumn, hnames⟩ := h
  obtain ⟨column', hcolumn', hnames'⟩ := h'
  obtain rfl := Option.some_inj.mp (hcolumn.symm.trans hcolumn')
  exact (String.append_left_inj _).mp (List.cons.inj (hnames'.symm.trans hnames)).1

/-- The passes after which the parents of all pointers are known, and their keys. -/
def parentPasses : List Pass :=
  [.quickModels, .modelShells, .relationReservations, .columns] ++ [.belongsTo, .belongsToMany, .hasOneOrMany,
   .hasOneOrManyThrough, .morphTo, .morphOneOrMany, .morphToMany, .pivotModels]

namespace Course

variable (c : Course settings schema)

theorem completes_pivoted : Completes parentPasses (.start settings schema) c.pivoted := by
  have hparents : Completes ([.morphOneOrMany, .morphToMany] ++ [.pivotModels]) c.pointed c.pivoted :=
    completes_append.mpr ⟨c.linked, c.parents, c.pivoted, c.pivotModels, rfl⟩
  have hjoins : Completes ([.belongsToMany, .hasOneOrMany, .hasOneOrManyThrough] ++
      [.morphTo, .morphOneOrMany, .morphToMany, .pivotModels]) c.owned c.pivoted :=
    completes_append.mpr ⟨c.joined, c.joins, c.pointed, c.morphTo, hparents⟩
  exact completes_append.mpr ⟨c.declared, c.columns, c.owned, c.belongsTo, hjoins⟩

theorem completes : Completes modelPasses (.start settings schema) c.complete :=
  c.completes_pivoted.append (.cons c.morphColumns (.cons c.modelAttributes rfl))

theorem edited_pointed : Edited [.morphOneOrMany, .morphToMany, .pivotModels, .morphColumns, .modelAttributes]
    c.pointed c.complete :=
  (c.reaches_linked.1.append c.edited_pivoted).append c.edited_complete

theorem edited_joined : Edited [.belongsTo, .belongsToMany, .hasOneOrMany, .hasOneOrManyThrough] c.declared c.joined :=
  c.reaches_owned.1.append c.reaches_joined.1

/-- A pointer is what its line makes of it: later turns only add parents. -/
theorem exists_line_of_pointer (hm : c.complete.models.get? k = some m) {r : Relation} (hr : m.relations.get? n = some r)
    (hkind : r.kind = .morphTo) : ∃ l models, c.declared.Declares l ∧ l.model = k ∧ l.name = n ∧
      r = ⟨l.name, l.methods, .morphTo ⟨models, (l.argument? 0).getD l.name, l.columnMethods.has "nullable"⟩⟩ := by
  have hn : (n, .morphTo) ∈ c.declared.relationLines k := hkind ▸ c.mem_relationLines hm hr
  obtain ⟨_, hall⟩ := turns_morphTo c.morphTo
  obtain ⟨l, d, d', ht, rfl, rfl, _⟩ := hall k n _ (List.mem_singleton_self _) (c.edited_joined.relationLines k ▸ hn)
  obtain rfl := Resolve.modify_run_ok.mp ht.left
  obtain ⟨m₁, hm₁, _⟩ := c.edited_pointed.back hm
  obtain ⟨_, _, _, r₁, hr₁, hp₁⟩ := ht.resolved hm₁
  obtain ⟨models, rfl⟩ := Relation.exists_morphTo hp₁ rfl
  have hline : (l.name, .morphTo) ∈ c.pointed.relationLines l.model :=
    (c.reaches_pointed.1.relationLines _).trans (c.edited_joined.relationLines _) ▸ hn
  obtain ⟨r', hr', hp'⟩ := c.edited_pointed.relation hline (by simp [Relation.kind, Link.kind, RelationKind.stage]) hm₁ hm hr₁
  obtain rfl := Option.some_inj.mp (hr.symm.trans hr')
  obtain ⟨models', rfl⟩ := Relation.exists_morphTo hp' rfl
  exact ⟨l, models', ht.declares.back c.edited_joined, rfl, rfl, rfl⟩

/-- The name of a pointer and whether its pair may be null are those of its line. -/
theorem exists_pointed (hm : c.complete.models.get? k = some m) {r : Relation} (hr : m.relations.get? n = some r)
    {link : MorphTo} (hl : r.link = .morphTo link) : ∃ l, c.declared.Declares l ∧ l.model = k ∧ l.name = n ∧
      link.columnName = (l.argument? 0).getD l.name ∧ link.nullable = l.columnMethods.has "nullable" := by
  obtain ⟨l, models, hdeclares, rfl, rfl, rfl⟩ := c.exists_line_of_pointer hm hr (congrArg Link.kind hl)
  obtain rfl := Link.morphTo.inj hl
  exact ⟨l, hdeclares, rfl, rfl, rfl, rfl⟩

/-- How the column pair of a pointer has come about: from its line, and from the keys of its parents. -/
structure Paired (l : DeclaredRelation) (link : MorphTo) (shape : KeyShape) (m : Model) : Prop where
  declares : c.declared.Declares l
  columnName : link.columnName = (l.argument? 0).getD l.name
  nullable : link.nullable = l.columnMethods.has "nullable"
  agree : Agree c.complete.models link.models shape
  column : ∃ column, m.columns.get? l.name = some column ∧
    column.untagged = (morphColumn l.name link shape l.columnMethods).untagged

theorem Paired.hasPair {l : DeclaredRelation} {link : MorphTo} {shape : KeyShape} (h : c.Paired l link shape m) :
    HasPair m l.name link.columnName := by
  obtain ⟨column, hcolumn, hu⟩ := h.column
  rw [morphColumn_eq] at hu
  have hname : column.name = link.columnName := congrArg Column.name hu
  have htype : column.type = morphType link.nullable shape.uuid := congrArg Column.type hu
  have htypes : column.isTimestamps = false ∧ column.isMorphs = true := by
    unfold Column.isTimestamps Column.isMorphs
    rw [htype]
    cases link.nullable <;> cases shape.uuid <;> decide
  refine ⟨column, hcolumn, ?_⟩
  unfold Column.physicalNames
  rw [if_neg (by simp [htypes.1]), if_pos htypes.2, hname]

theorem exists_paired (hm : c.complete.models.get? k = some m) {r : Relation} (hr : m.relations.get? n = some r)
    {link : MorphTo} (hl : r.link = .morphTo link) :
    ∃ l shape, c.Paired l link shape m ∧ l.model = k ∧ l.name = n := by
  obtain ⟨l, hdeclares, rfl, rfl, hname, hnull⟩ := c.exists_pointed hm hr hl
  obtain ⟨m₂, hm₂, _⟩ := c.edited_complete.back hm
  have hrelations := c.edited_complete.relations (by decide) hm₂ hm
  have hpointer : (⟨l.model, l.name⟩, link) ∈ c.pivoted.pointers :=
    (mem_pointers_iff c.sound_pivoted).mpr ⟨m₂, r, hm₂, hrelations ▸ hr, hl⟩
  obtain ⟨_, hpairs⟩ := turns_morphColumns c.sound_pivoted c.awaits_pivoted c.morphColumns
  obtain ⟨d, d', hturn, hbefore, hafter, hkept⟩ := hpairs _ _ _ hpointer
  obtain ⟨parents, shape, found, column, hne, hparents, hshape, hfound, rfl, rfl⟩ := resolveMorphColumns_ok_iff.mp hturn
  obtain rfl : found = some l := by
    have hd : d.Declares l := (hdeclares.along (c.reaches_owned.1.append c.reaches_pivoted.1)).along hbefore
    exact Except.ok.inj (hfound.symm.trans (declaredRelation?_eq hd))
  refine ⟨l, shape, ⟨hdeclares, hname, hnull, ?_, ?_⟩, rfl, rfl⟩
  · rw [← Agree.of_edited c.edited_complete (by decide), Agree.of_edited hbefore (by decide)]
    exact agree_of_commonShape? hne hparents hshape
  · have hattributes : Edited [.modelAttributes] c.paired c.complete := edited_modelAttributes c.modelAttributes
    obtain ⟨m₃, hm₃, _⟩ := hattributes.back hm
    obtain ⟨m₄, hm₄, _⟩ := hafter.back hm₃
    obtain ⟨o, ho, rfl⟩ := Draft.exists_of_get?_modifyModel hm₄
    rw [Draft.atPlace_of_get? hm₃, Draft.atPlace_of_get? hm₄] at hkept
    have hmade : (atPlace l.name m₃).1 = some (some (morphColumn l.name link shape l.columnMethods).untagged) := by
      rw [Option.some_inj.mp hkept]
      exact get?_iff_atPlace.mpr ⟨_, by rw [Slots.get?_resolve, if_pos rfl]; rfl, rfl⟩
    obtain ⟨column, hcolumn, hu⟩ := get?_iff_atPlace.mp hmade
    have hkept₃ : Kept (c.paired.relationLines l.model) m₃ m := hattributes.kept hm₃ hm
    obtain ⟨placed, hplaced, hu'⟩ := c.get?_of_line hm (c.mem_relationLines hm hr) hkept₃ hcolumn
    exact ⟨placed, hplaced, hu'.trans hu⟩

end Course

end Schemata.Resolution
