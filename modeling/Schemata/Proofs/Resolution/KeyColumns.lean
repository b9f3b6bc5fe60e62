import Schemata.Proofs.Resolution.Completion

/-!
# Key columns

What the models of a complete draft have kept of their declarations, and what the pass of `belongsTo` has made of each of its
lines: a key column in the place of the relation, unless another column has its name.
-/

namespace Schemata.Resolution

variable {settings : Settings} {schema : SchemaDeclaration} {k n : String} {m : Model}

theorem declaredKey?_eq_none_iff {owner : Model} {relation name : String} :
    declaredKey? owner relation name = none ↔
      ∀ j c, owner.columns.get? j = some c → c.name = name → j = relation := by
  unfold declaredKey?
  rw [Option.map_eq_none_iff, List.find?_eq_none]
  constructor
  · intro h j c hj hn
    by_contra hne
    exact h (j, c) (Slots.mem_resolved_iff.mpr hj) (by simp [hne, hn])
  · rintro h ⟨j, c⟩ hx hp
    have hp : j ≠ relation ∧ c.name = name := by simpa using hp
    exact hp.1 (h j c (Slots.mem_resolved_iff.mp hx) hp.2)

theorem declaredKey?_ne {owner : Model} {relation name j : String} (h : declaredKey? owner relation name = some j) :
    j ≠ relation := by
  obtain ⟨x, hx, rfl⟩ := Option.map_eq_some_iff.mp h
  have hp : x.1 ≠ relation ∧ x.2.name = name := by simpa using List.find?_some hx
  exact hp.1

theorem slot?_placeKey (name : String) (column : Column) (m : Model) : (placeKey name column m).columns.slot? name =
    (declaredKey? m name column.name).elim (some (.resolved column)) fun _ => none := by
  unfold placeKey
  split
  · rename_i key hkey
    rw [hkey, Slots.slot?_modify, if_neg (declaredKey?_ne hkey).symm, Slots.slot?_erase, if_pos rfl]
    rfl
  · rename_i hkey
    rw [hkey, Slots.slot?_resolve, if_pos rfl]
    rfl

/-- A schema declares a relation line. -/
def DeclaredBy (schema : SchemaDeclaration) (l : DeclaredRelation) : Prop :=
  ∃ y s text, schema.models.get? l.model = some y ∧ modelDeclaration l.model y = .ok s ∧
    s.columns.get? l.name = some (some text) ∧ DeclaredRelation.parse l.model l.name (.parse text) = .ok l

theorem DeclaredBy.unique {l l' : DeclaredRelation} (h : DeclaredBy schema l) (h' : DeclaredBy schema l')
    (hm : l'.model = l.model) (hn : l'.name = l.name) : l' = l := by
  obtain ⟨y, declaration, text, hy, hread, htext, hp⟩ := h
  obtain ⟨y', declaration', text', hy', hread', htext', hp'⟩ := h'
  rw [hm] at hy' hread' hp'
  rw [hn] at htext' hp'
  obtain rfl := Option.some_inj.mp (hy.symm.trans hy')
  obtain rfl := Except.ok.inj (hread.symm.trans hread')
  obtain rfl := Option.some_inj.mp (Option.some_inj.mp (htext.symm.trans htext'))
  exact Except.ok.inj (hp'.symm.trans hp)

theorem exists_declaredBy_of_any {model name : String} {p : DeclaredRelation → Bool}
    (h : (schema.models.get? model).any (fun y => (modelDeclaration model y).toOption.any fun s =>
      (s.columns.get? name).any fun line => line.any fun text =>
        (DeclaredRelation.parse model name (.parse text)).toOption.any p) = true) :
    ∃ l, DeclaredBy schema l ∧ l.model = model ∧ l.name = name ∧ p l = true := by
  obtain ⟨y, hy, h⟩ := exists_of_any h
  obtain ⟨s, hs, h⟩ := exists_of_any h
  obtain ⟨line, hline, h⟩ := exists_of_any h
  obtain ⟨text, rfl, hp⟩ := exists_of_any h
  obtain ⟨l, hl, hpl⟩ := exists_of_any hp
  have hparse := ok_of_toOption hl
  obtain ⟨rfl, rfl, _⟩ := DeclaredRelation.parse_ok hparse
  exact ⟨l, ⟨y, s, text, hy, ok_of_toOption hs, hline, hparse⟩, rfl, rfl, hpl⟩

/-- A builder refers to the key of a model: it is that of the column with the key's name in the place of no relation. Where there
is no key, it is that of a number. -/
structure KeyBuilder (builder : String × List Shorthand.Argument) (m : Model) : Prop where
  without : m.primary = none → builder = ("unsignedBigInteger", [])
  key : m.primary ≠ none → ∃ j key, m.columns.get? j = some key ∧ m.relations.get? j = none ∧ key.name = m.primaryName ∧
    builder = key.foreignMethod

def ComesTo (settings : Settings) (schema : SchemaDeclaration) (l : DeclaredRelation) (d : Draft) : Prop :=
  ∃ declared e, Completes [.quickModels, .modelShells, .relationReservations, .columns] (.start settings schema) declared ∧
    Turn (·.declaredRelations .belongsTo) (fun line => .update (resolveBelongsTo line)) declared l d e

namespace Course

variable (c : Course settings schema)

/-! ## What is kept of a declaration -/

theorem exists_kept (hm : c.complete.models.get? k = some m) : ∃ y s m₀, schema.models.get? k = some y ∧
    modelDeclaration k y = .ok s ∧ c.declared.models.get? k = some m₀ ∧ c.declared.relationLines k = relationLines s ∧
    Laid s m₀ ∧ Kept (relationLines s) m₀ m ∧ m.autoId = s.autoId := by
  obtain ⟨hf, hlaid⟩ := c.founded_laid
  obtain ⟨m₀, hm₀, _⟩ := c.edited_declared.back hm
  obtain ⟨s, hs, hl⟩ := hlaid k m₀ hm₀
  obtain ⟨y, hy, hread⟩ := hf.read.declaration k s hs
  have hlines : c.declared.relationLines k = relationLines s := by
    unfold Draft.relationLines
    rw [hs]
    rfl
  have hauto : m.autoId = s.autoId := c.founded.autoId k m s hm (c.edited_declared.declarations ▸ hs)
  exact ⟨y, s, m₀, hy, hread, hm₀, hlines, hl, hlines ▸ c.edited_declared.kept hm₀ hm, hauto⟩

theorem mem_relationLines (hm : c.complete.models.get? k = some m) {r : Relation} (hr : m.relations.get? n = some r) :
    (n, r.kind) ∈ c.declared.relationLines k :=
  c.edited_declared.relationLines k ▸ ((c.founded.sound.model k m hm).relation hr).2.1

theorem declaredBy {l : DeclaredRelation} (hl : c.declared.Declares l) : DeclaredBy schema l := by
  obtain ⟨s, text, hs, htext, hp⟩ := hl
  obtain ⟨y, hy, hread⟩ := c.founded_laid.1.read.declaration l.model s hs
  exact ⟨y, s, text, hy, hread, htext, hp⟩

/-- A model that gives up its key has neither the key nor its column in the end. -/
theorem stripped (hm : c.complete.models.get? k = some m) (hg : GivesUpKey m) :
    m.primary = none ∧ "id" ∉ m.columns.keys := by
  obtain ⟨n, hn, _⟩ := c.edited_complete.back hm
  have hmodels := (pivotModels_ok c.pivotModels).1
  rw [hmodels] at hn
  obtain ⟨o, ho, rfl⟩ := Option.map_eq_some_iff.mp ((OrderedMap.get?_mapEntries _ _ _).symm.trans hn)
  have hn : c.pivoted.models.get? k = some (dropAddedKey o) := by rw [hmodels]; exact hn
  have htype : m.type = o.type :=
    (c.edited_complete.type (by decide) hn hm).trans (type_dropAddedKey o)
  have hauto : m.autoId = o.autoId :=
    (c.edited_complete.sameIdentity Edit.sameIdentity hn hm).autoId.trans (sameIdentity_dropAddedKey o).autoId
  have hdrop : dropAddedKey o = { o with columns := o.columns.erase "id", primary := none } := by
    have ho : (o.isPivot && o.autoId) = true := by
      unfold Model.isPivot
      rw [← htype, ← hauto]
      exact Bool.and_eq_true_iff.mpr hg
    unfold dropAddedKey
    rw [if_pos ho]
  rw [hdrop] at hn
  refine ⟨c.edited_complete.primary (by decide) hn hm, fun hid => ?_⟩
  have hid : "id" ∈ (o.columns.erase "id").keys := (c.edited_complete.kept hn hm).keys.subset hid
  rw [Slots.keys_erase] at hid
  simpa using (List.mem_filter.mp hid).2

/-! ## What is made of a `belongsTo` -/

/-- How a `belongsTo` of a model has come about: the pass has come to its line in a draft, and has made a key column for the
target that it has found there. -/
structure Owned (l : DeclaredRelation) (d : Draft) (owner target : Model) (column : Column) (m : Model) : Prop where
  comes : ComesTo settings schema l d
  declares : c.declared.Declares l
  before : Edited [.belongsTo] c.declared d
  after : Edited [.belongsTo, .belongsToMany, .hasOneOrMany, .hasOneOrManyThrough, .morphTo, .morphOneOrMany, .morphToMany,
    .pivotModels, .morphColumns, .modelAttributes] d c.complete
  get?_owner : d.models.get? l.model = some owner
  reference : d.target l = .ok target.key
  get?_target : d.models.get? target.key = some target
  keyColumn_ok : keyColumn l target = .ok column
  relation : m.relations.get? l.name = some ⟨l.name, l.methods, .belongsTo ⟨target.key, column.name, l.argument? 2⟩⟩
  given_up {j} : declaredKey? owner l.name column.name = some j → l.name ∉ m.columns.keys
  placed : declaredKey? owner l.name column.name = none →
    ∃ placed, m.columns.get? l.name = some placed ∧ placed.untagged = column.untagged

theorem edited_owned : Edited [.belongsToMany, .hasOneOrMany, .hasOneOrManyThrough, .morphTo, .morphOneOrMany, .morphToMany,
    .pivotModels, .morphColumns, .modelAttributes] c.owned c.complete :=
  c.reaches_pivoted.1.append c.edited_complete

/-- A relation line has the column that it has at an edit, if its model keeps it. -/
theorem get?_of_line (hm : c.complete.models.get? k = some m) {kind : RelationKind}
    (hn : (n, kind) ∈ c.declared.relationLines k) {lines : List (String × RelationKind)} {o : Model} (h : Kept lines o m)
    {column : Column} (ho : o.columns.get? n = some column) :
    ∃ placed, m.columns.get? n = some placed ∧ placed.untagged = column.untagged := by
  rcases h.column ho with hplaced | ⟨rfl, hg⟩
  · exact hplaced
  · exact absurd (c.edited_declared.relationLines k ▸ hn) ((c.founded.sound.model k m hm).addedKey hg.2 kind)

/-- What a turn of the pass has made is there in the end. -/
theorem owned_of_turn {l : DeclaredRelation} {d d' : Draft} (ht : TurnIn [.belongsTo] (·.declaredRelations .belongsTo)
    (fun line => .update (resolveBelongsTo line)) c.declared c.owned l d d') (hk : l.kind = .belongsTo)
    (hm : c.complete.models.get? l.model = some m) : ∃ owner target column, c.Owned l d owner target column m := by
  obtain ⟨key, target, column, href, htarget, hcolumn, rfl⟩ := resolveBelongsTo_ok_iff.mp (Resolve.update_run_ok.mp ht.left)
  have hd : d.Sound := c.sound_declared.edited ht.before
  obtain rfl : target.key = key := hd.keyed key target htarget
  obtain ⟨n₁, hn₁, _⟩ := c.edited_owned.back hm
  obtain ⟨o, ho, hslot, _⟩ := ht.resolved hn₁
  obtain ⟨owner, howner, rfl⟩ := Draft.exists_of_get?_modifyModel ho
  have hkept : Kept (c.owned.relationLines l.model) n₁ m := c.edited_owned.kept hn₁ hm
  have hafter := (trans_of (Edited [.belongsTo]) ht.edited ht.after).append c.edited_owned
  refine ⟨owner, target, column, ⟨c.declared, _, c.columns, ht.toTurn⟩, ht.declares, ht.before, hafter, howner, href, htarget,
    hcolumn, ?_, fun {j} hj hmem => ?_, fun hj => ?_⟩
  · exact ht.relation c.edited_owned hk.symm (by simp [Link.kind, RelationKind.stage]) (by simp [Link.kind]) hm
  · unfold atPlace at hslot
    rw [slot?_placeKey, hj] at hslot
    obtain ⟨slot, hs⟩ := Slots.mem_keys_iff.mp (hkept.keys.subset hmem)
    exact absurd (hs.symm.trans (Option.map_eq_none_iff.mp hslot)) (by simp)
  · have hmade : (atPlace l.name n₁).1 = some (some column.untagged) := by
      rw [hslot]
      unfold atPlace
      rw [slot?_placeKey, hj]
      rfl
    obtain ⟨c₁, hc₁, hu⟩ := get?_iff_atPlace.mp hmade
    obtain ⟨placed, hplaced, hu'⟩ := c.get?_of_line hm (hk ▸ ht.declares.line) hkept hc₁
    exact ⟨placed, hplaced, hu'.trans hu⟩

theorem exists_owned (hm : c.complete.models.get? k = some m) (hn : (n, .belongsTo) ∈ c.declared.relationLines k) :
    ∃ l d owner target column, c.Owned l d owner target column m ∧ l.model = k ∧ l.name = n ∧ l.kind = .belongsTo := by
  obtain ⟨_, hall⟩ := turns_belongsTo c.sound_declared (awaits_of_laid c.founded_laid.2 rfl) c.belongsTo
  obtain ⟨l, d, d', ht, rfl, rfl, hk⟩ := hall k n _ (List.mem_singleton_self _) hn
  obtain ⟨owner, target, column, ho⟩ := c.owned_of_turn ht hk hm
  exact ⟨l, d, owner, target, column, ho, rfl, rfl, hk⟩

/-- A `belongsTo` in the end is the one that the turn of its line has made. -/
theorem exists_owned_of_link {l : DeclaredRelation} (hline : DeclaredBy schema l)
    (hm : c.complete.models.get? l.model = some m) {r : Relation} (hr : m.relations.get? l.name = some r) {link : BelongsTo}
    (hl : r.link = .belongsTo link) : ∃ d owner target column, c.Owned l d owner target column m ∧
      link = ⟨target.key, column.name, l.argument? 2⟩ := by
  have hkind : r.kind = .belongsTo := congrArg Link.kind hl
  obtain ⟨l', d, owner, target, column, ho, hmodel, hname, _⟩ := c.exists_owned hm (hkind ▸ c.mem_relationLines hm hr)
  obtain rfl : l' = l := hline.unique (c.declaredBy ho.declares) hmodel hname
  obtain rfl := Option.some_inj.mp (hr.symm.trans ho.relation)
  exact ⟨d, owner, target, column, ho, (Link.belongsTo.inj hl).symm⟩

/-- If the place of a line holds a column in the end, it is the key column that was made for it. -/
theorem untagged_eq {l : DeclaredRelation} {d : Draft} {owner target : Model} {column placed : Column}
    (h : c.Owned l d owner target column m) (hplaced : m.columns.get? l.name = some placed) :
    placed.untagged = column.untagged := by
  cases hd : declaredKey? owner l.name column.name with
  | some j => exact absurd (Slots.mem_keys_iff.mpr ⟨_, Slots.get?_eq_some_iff.mp hplaced⟩) (h.given_up hd)
  | none =>
    obtain ⟨made, hmade, hu⟩ := h.placed hd
    obtain rfl := Option.some_inj.mp (hplaced.symm.trans hmade)
    exact hu

/-- A key that is given up stands in its place under its own name. -/
theorem name_given_up {stages : List Stage} {d : Draft} {o : Model} {column : Column} (h : Edited stages c.declared d)
    (hs : .pivotModels ∉ stages) (ho : d.models.get? k = some o) (hm : c.complete.models.get? k = some m)
    (hg : GivesUpKey m) (hcolumn : o.columns.get? "id" = some column) : column.name = "id" := by
  obtain ⟨y, s, m₀, _, hread, hm₀, _, hl, _, ha⟩ := c.exists_kept hm
  have hadded := hl.get?_added (startsWithKey_of_autoId hread (ha ▸ hg.2)).1
  obtain ⟨key, hkey, hu⟩ := h.column hs hm₀ ho hadded
  obtain rfl := Option.some_inj.mp (hcolumn.symm.trans hkey)
  exact Column.name_eq_of_untagged hu

/-- The column that a `belongsTo` asks for is there, in the place of its line or in that of a declared column, unless it is the
key that a pivot model has given up. -/
theorem exists_named_or_given_up {l : DeclaredRelation} {d : Draft} {owner target : Model} {column : Column}
    (h : c.Owned l d owner target column m) (hm : c.complete.models.get? l.model = some m) :
    (∃ j placed, m.columns.get? j = some placed ∧ placed.name = column.name) ∨ column.name = "id" ∧ GivesUpKey m := by
  cases hd : declaredKey? owner l.name column.name with
  | none =>
    obtain ⟨placed, hplaced, hu⟩ := h.placed hd
    exact .inl ⟨l.name, placed, hplaced, Column.name_eq_of_untagged hu⟩
  | some j =>
    obtain ⟨⟨j, declared⟩, hx, rfl⟩ := Option.map_eq_some_iff.mp hd
    have hj : owner.columns.get? j = some declared := Slots.mem_resolved_iff.mp (List.mem_of_find?_eq_some hx)
    have hname : declared.name = column.name := by
      have hp : j ≠ l.name ∧ declared.name = column.name := by simpa using List.find?_some hx
      exact hp.2
    rcases (h.after.kept h.get?_owner hm).column hj with ⟨placed, hplaced, hu⟩ | ⟨rfl, hg⟩
    · exact .inl ⟨j, placed, hplaced, (Column.name_eq_of_untagged hu).trans hname⟩
    · exact .inr ⟨hname.symm.trans (c.name_given_up h.before (by decide) h.get?_owner hm hg hj), hg⟩

theorem exists_named {l : DeclaredRelation} {d : Draft} {owner target : Model} {column : Column}
    (h : c.Owned l d owner target column m) (hm : c.complete.models.get? l.model = some m) (hid : column.name ≠ "id") :
    ∃ j placed, m.columns.get? j = some placed ∧ placed.name = column.name :=
  (c.exists_named_or_given_up h hm).resolve_right fun hgiven => hid hgiven.1

/-! ## What a key column refers to -/

theorem exists_complete {stages : List Stage} {d : Draft} {o : Model} (h : Edited stages c.declared d)
    (ho : d.models.get? k = some o) : ∃ m, c.complete.models.get? k = some m := by
  obtain ⟨m₀, hm₀, _⟩ := h.back ho
  obtain ⟨m, hm, _⟩ := c.edited_declared.model hm₀
  exact ⟨m, hm⟩

theorem sameIdentity {stages : List Stage} {d : Draft} {o : Model} (h : Edited stages c.declared d)
    (ho : d.models.get? k = some o) (hm : c.complete.models.get? k = some m) : SameIdentity o m := by
  obtain ⟨m₀, hm₀, _⟩ := h.back ho
  exact (h.sameIdentity Edit.sameIdentity hm₀ ho).symm.trans (c.edited_declared.sameIdentity Edit.sameIdentity hm₀ hm)

/-- A key that is given up goes by the name that the lack of a key goes by. -/
theorem primaryName_eq {stages : List Stage} {d : Draft} {o : Model} (h : Edited stages c.declared d)
    (hs : .pivotModels ∉ stages) (ho : d.models.get? k = some o) (hm : c.complete.models.get? k = some m) :
    o.primaryName = m.primaryName := by
  obtain ⟨y, s, m₀, _, hread, hm₀, _, hl, hk, ha⟩ := c.exists_kept hm
  have hname : o.primaryName = m₀.primaryName := by
    rw [Model.primaryName, Model.primaryName, h.primary hs hm₀ ho]
  rcases hk.primary with hp | ⟨hnone, hg⟩
  · rw [hname, Model.primaryName, Model.primaryName, hp]
  · obtain ⟨hstarts, hprimary⟩ := startsWithKey_of_autoId hread (ha ▸ hg.2)
    rw [hname, (hl.added hstarts hprimary).1, Model.primaryName, hnone]
    rfl

theorem foreignKey_eq {stages : List Stage} {d : Draft} {o : Model} (h : Edited stages c.declared d)
    (hs : .pivotModels ∉ stages) (ho : d.models.get? k = some o) (hm : c.complete.models.get? k = some m) :
    Convention.foreignKey o.className o.primaryName = Convention.foreignKey m.className m.primaryName := by
  rw [(c.sameIdentity h ho hm).className, c.primaryName_eq h hs ho hm]

/-- The column of a `belongsTo` has the name that its line gives it, or else the one that follows from the target. -/
theorem name_eq {l : DeclaredRelation} {d : Draft} {owner target o : Model} {column : Column}
    (h : c.Owned l d owner target column m) (ho : c.complete.models.get? target.key = some o) :
    column.name = (l.argument? 1).getD (Convention.foreignKey o.className o.primaryName) := by
  obtain ⟨name, builder, rfl, hunnamed, hnamed⟩ := keyColumn_ok h.keyColumn_ok
  cases hg : l.argument? 1 with
  | none => exact (hunnamed hg).2.2.trans (c.foreignKey_eq h.before (by decide) h.get?_target ho)
  | some given => exact (hnamed given hg).1

theorem foreignMethod_eq {stages : List Stage} {d : Draft} {m₀ o : Model} (h : Edited stages c.declared d)
    (hs : .pivotModels ∉ stages ∧ .morphColumns ∉ stages) (hm₀ : c.declared.models.get? k = some m₀)
    (ho : d.models.get? k = some o) : o.foreignMethod = m₀.foreignMethod := by
  have hprimary : o.primary = m₀.primary := h.primary hs.1 hm₀ ho
  cases hkey : m₀.primary with
  | none => simp [Model.foreignMethod, Model.primaryColumn?, Model.hasUuidKey, hprimary, hkey]
  | some p =>
    obtain ⟨s, _, hl⟩ := c.founded_laid.2 k m₀ hm₀
    obtain ⟨key, hcolumn⟩ := hl.primaryColumn? (Option.isSome_iff_exists.mpr ⟨p, hkey⟩)
    obtain ⟨q, hq, hnamed⟩ := Option.bind_eq_some_iff.mp hcolumn
    obtain ⟨key', hkey', hu⟩ := h.columnNamed? hs hm₀ ho hnamed
    have hcolumn' : o.primaryColumn? = some key' := by
      rw [Model.primaryColumn?, hprimary, hq]
      exact hkey'
    rw [Model.foreignMethod, Model.foreignMethod, hcolumn', hcolumn]
    exact Column.foreignMethod_eq_of_untagged hu

/-- A column that is declared is in the place of no relation. -/
theorem relation_eq_none {s : ModelDeclaration} {m₀ : Model} {j : String} {column : Column}
    (hlines : c.declared.relationLines k = relationLines s) (hl : Laid s m₀) (hj : m₀.columns.get? j = some column)
    (hm : c.complete.models.get? k = some m) : m.relations.get? j = none := by
  by_contra hrelation
  obtain ⟨r, hr⟩ := Option.ne_none_iff_exists'.mp hrelation
  have hline := ((c.founded.sound.model k m hm).relation hr).2.1
  rw [c.edited_declared.relationLines, hlines] at hline
  have hslot := hl.slot?_relation hline
  rw [Slots.get?_eq_some_iff.mp hj] at hslot
  split at hslot <;> cases hslot

/-- Until keys are given up, what refers to a model refers to the key that it has in the end. -/
theorem keyBuilder {stages : List Stage} {d : Draft} {o : Model} (h : Edited stages c.declared d)
    (hs : .pivotModels ∉ stages ∧ .morphColumns ∉ stages) (ho : d.models.get? k = some o)
    (hm : c.complete.models.get? k = some m) : KeyBuilder o.foreignMethod m := by
  obtain ⟨y, s, m₀, _, hread, hm₀, hlines, hl, hk, ha⟩ := c.exists_kept hm
  rw [c.foreignMethod_eq h hs hm₀ ho]
  cases hkey : m₀.primary with
  | none =>
    have hnone : m.primary = none := hk.primary.elim (fun hp => hp.trans hkey) (·.1)
    refine ⟨fun _ => ?_, fun hp => absurd hnone hp⟩
    simp [Model.foreignMethod, Model.primaryColumn?, Model.hasUuidKey, hkey]
  | some p =>
    obtain ⟨key, hcolumn⟩ := hl.primaryColumn? (Option.isSome_iff_exists.mpr ⟨p, hkey⟩)
    constructor
    · intro hnone
      have hg : GivesUpKey m := by
        rcases hk.primary with hp | ⟨_, hg⟩
        · rw [hnone, hkey] at hp
          cases hp
        · exact hg
      obtain ⟨hstarts, hprimary⟩ := startsWithKey_of_autoId hread (ha ▸ hg.2)
      exact (hl.added hstarts hprimary).2
    · intro hkept
      obtain ⟨j, key', hj, hj', hu, hname⟩ := hk.keyColumn hcolumn (fun hg => (c.stripped hm hg).1) hkept
      refine ⟨j, key', hj', c.relation_eq_none hlines hl hj hm, hname, ?_⟩
      rw [Model.foreignMethod, hcolumn]
      exact (Column.foreignMethod_eq_of_untagged hu).symm

/-- The model that an unnamed key column refers to, as it is in the end: the column has the name that follows from its key, and
the builder of the key's own column. Only a key that was added may be gone. -/
theorem refers {l : DeclaredRelation} {d : Draft} {owner target : Model} {column : Column}
    (h : c.Owned l d owner target column m) (hno : l.argument? 1 = none) : ∃ n builder,
      c.complete.models.get? target.key = some n ∧ column = (Column.ofCall
        (Convention.foreignKey n.className n.primaryName) (l.columnCall builder.1 builder.2)).forRelation l.name ∧
      (n.primary = none ↔ GivesUpKey n) ∧
      (n.primary ≠ none → ∃ j key, n.columns.get? j = some key ∧ n.relations.get? j = none ∧ key.name = n.primaryName ∧
        builder = key.foreignMethod) ∧
      ((∀ j c', (j, .morphTo) ∈ c.complete.relationLines target.key → n.columns.get? j = some c' →
        c'.name ≠ n.primaryName) → builder = n.foreignMethod) := by
  obtain ⟨name, builder, hcolumn, hbuilder, _⟩ := keyColumn_ok h.keyColumn_ok
  obtain ⟨hkey, rfl, rfl⟩ := hbuilder hno
  obtain ⟨m₀, hm₀, _⟩ := h.before.back h.get?_target
  obtain ⟨n, hn, _⟩ := c.edited_declared.model hm₀
  obtain ⟨y, s, m₁, _, hread, hm₁, hlines, hl, hk, ha⟩ := c.exists_kept hn
  obtain rfl := Option.some_inj.mp (hm₀.symm.trans hm₁)
  have hprimary : target.primary = m₀.primary := h.before.primary (by decide) hm₀ h.get?_target
  obtain ⟨key, hkeyColumn⟩ := hl.primaryColumn? (hprimary ▸ hkey)
  obtain ⟨hgives, _, hlooked⟩ := hk.refers hkeyColumn (fun hg => (c.stripped hn hg).1) fun hg => by
    obtain ⟨hs, hp⟩ := startsWithKey_of_autoId hread (ha ▸ hg.2)
    exact hl.added hs hp
  rw [c.foreignKey_eq h.before (by decide) h.get?_target hn] at hcolumn
  refine ⟨n, target.foreignMethod, hn, hcolumn, hgives, (c.keyBuilder h.before (by decide) h.get?_target hn).key,
    fun hpairs => ?_⟩
  rw [c.edited_declared.relationLines, hlines] at hpairs
  rw [c.foreignMethod_eq h.before (by decide) hm₀ h.get?_target, hlooked hpairs]

end Course

end Schemata.Resolution
