import Schemata.Proofs.Resolution.QuickPasses

/-!
# Runs on models that become quick

The standard passes succeed on a quick declaration if they succeed on its lines as they are, and what these come to leaves room for what
the declaration adds.
-/

namespace Schemata.Resolution

open Declaration Resolve Shorthand

variable {settings : Settings} {schema : SchemaDeclaration} {d e b : Draft} {owner : String} {key times : Bool} {m n M : Model}
  {columns : OrderedMap (Option String)} {entries : List (Yaml × Yaml)} {s : ModelDeclaration} {xs ys : List Pass}

/-- What a model has come to leaves room for what a quick declaration adds to its columns: a key, timestamps, and the names of columns
that become hidden. -/
structure LeavesRoom (models : OrderedMap Model) (owner : String) (columns : OrderedMap (Option String)) (M : Model) : Prop where
  /-- No line is dropped. -/
  apart : ¬("uuid" ∈ columns.keys ∧ "id" ∈ columns.keys)
  admits : Admits (addsKey columns) (addsTimes columns) M.columns.values
  secrets : ∀ name ∈ secretColumns columns, name ∈ M.physicalNames ∨ (M.relations.get? name).isSome
  /-- The key columns by which others refer to the model spare what is added. -/
  spares : ∀ m ∈ models.values, ∀ x ∈ m.belongsToRelations, x.2.model = owner →
    Spares (addsKey columns) (addsTimes columns) M.columns.values x.2.columnKey

instance (models : OrderedMap Model) (owner : String) (columns : OrderedMap (Option String)) (M : Model) :
    Decidable (LeavesRoom models owner columns M) :=
  decidable_of_iff (¬("uuid" ∈ columns.keys ∧ "id" ∈ columns.keys) ∧ Admits (addsKey columns) (addsTimes columns) M.columns.values ∧
      (∀ name ∈ secretColumns columns, name ∈ M.physicalNames ∨ (M.relations.get? name).isSome) ∧
      ∀ m ∈ models.values, ∀ x ∈ m.belongsToRelations, x.2.model = owner →
        Spares (addsKey columns) (addsTimes columns) M.columns.values x.2.columnKey)
    ⟨fun ⟨apart, admits, secrets, spares⟩ => ⟨apart, admits, secrets, spares⟩, fun h => ⟨h.apart, h.admits, h.secrets, h.spares⟩⟩

/-! ## The passes of columns -/

theorem LeavesRoom.allows {c : Course settings schema} (hM : c.complete.models.get? owner = some M)
    (h : LeavesRoom c.complete.models owner columns M)
    (hd : c.declared.declarations.get? owner = some (ofColumns columns)) : c.Allows owner (addsKey columns) (addsTimes columns) M where
  complete := hM
  unadded := c.founded.autoId owner M _ hM (c.edited_declared.declarations ▸ hd)
  admits := h.admits
  spares hm hr hl := h.spares _ (OrderedMap.mem_values_iff.mpr ⟨_, hm⟩) (_, _) (mem_belongsToRelations.mpr ⟨_, hr, hl⟩)

/-- The passes up to the columns succeed on the quick declaration of a model if they succeed on its lines. -/
theorem exists_first_quickened (c : Course settings (schema.redeclared owner (columnsBlock entries)))
    (hget : schema.models.get? owner = some (.map entries)) (hquick : Yaml.entry? entries "columns" = none)
    (hlines : ∀ x ∈ entries, IsLine x) (hread : columnLines (.map entries) = .ok columns)
    (hM : c.complete.models.get? owner = some M) (hroom : LeavesRoom c.complete.models owner columns M) :
    c.declared.declarations.get? owner = some (ofColumns columns) ∧
      ∃ b, Completes firstPasses (.start settings schema) b ∧ b.declarations.get? owner = some (quickened columns) ∧
        c.declared.Widened owner (addsKey columns) (addsTimes columns) b := by
  obtain ⟨d₁, hd₁, d₂, h₂, d₃, h₃, hd₃⟩ := c.exists_shelled
  obtain ⟨b₁, hb₁, hagrees, hd, hb⟩ := exists_shells_quickened hget hquick hlines hread hroom.apart hd₁
  obtain ⟨b₂, hb₂, hagrees⟩ := simulates_relationReservations hagrees h₂
  obtain ⟨hfounded, hbare⟩ := founded_of_completes (hd₁.append (.cons h₂ rfl))
  obtain ⟨hfounded', hbare'⟩ := founded_of_completes (hb₁.append (.cons hb₂ rfl))
  have hreserved : ∀ {d e : Draft}, Pass.relationReservations.body d = .ok () e → e.declarations = d.declarations := by
    intro d e hrun
    obtain rfl := modify_run_ok.mp hrun
    rw [(reserveRelations_eq d).1]
  have hd₂ := hreserved h₂ ▸ hd
  have hb₂' : b₂.declarations = d₂.declarations.modify owner fun _ => quickened columns := by
    rw [hreserved hb₂, hreserved h₂, hb]
  have hquickened : b₂.declarations.get? owner = some (quickened columns) := by
    rw [hb₂', OrderedMap.get?_modify, if_pos rfl, hd₂]
    rfl
  obtain ⟨m, hm⟩ := OrderedMap.mem_keys_iff.mp (hfounded.sound.keys ▸ OrderedMap.mem_keys_iff.mpr ⟨_, hd₂⟩ : owner ∈ d₂.models.keys)
  obtain ⟨n, hn⟩ := OrderedMap.mem_keys_iff.mp
    (hfounded'.sound.keys ▸ OrderedMap.mem_keys_iff.mpr ⟨_, hquickened⟩ : owner ∈ b₂.models.keys)
  have hdeclared : c.declared.declarations.get? owner = some (ofColumns columns) := by
    rw [← show d₃ = c.declared from hd₃, (declared_columns h₃).declarations]
    exact hd₂
  have hallows := hroom.allows hM hdeclared
  obtain ⟨b₃, hb₃, hwidened⟩ := columns_quickened hroom.apart hagrees hd₂ hb₂' hm (hbare owner m hm).1 hn (hbare' owner n hn).1 h₃
    fun ho => hallows.admits.of_untagged (c.edited_declared.keptIn (hd₃ ▸ ho) hallows.complete hallows.unadded)
  refine ⟨hdeclared, b₃, hb₁.append (.cons hb₂ (.cons hb₃ rfl)), ?_, hd₃ ▸ hwidened⟩
  rw [(declared_columns hb₃).declarations]
  exact hquickened

/-! ## The passes of relations -/

/-- The passes of relations that stand on the key columns of others, or on none. -/
def joinPasses : List Pass :=
  [.belongsToMany, .hasOneOrMany, .hasOneOrManyThrough, .morphTo, .morphOneOrMany, .morphToMany]

theorem linkPasses_split : linkPasses = (.belongsTo :: joinPasses) ++ [.pivotModels, .morphColumns] :=
  rfl

theorem left_joins (h : Completes firstPasses (.start settings schema) d) : Left (.belongsTo :: joinPasses) d := by
  have hall : Left ((.belongsTo :: joinPasses) ++ [.pivotModels, .morphColumns]) d := left_of_completes h (.refl linkPasses)
  exact hall.of_append

theorem founded_of_links (hfirst : Completes firstPasses (.start settings schema) d) (hsplit : linkPasses = xs ++ ys)
    (hrun : Completes xs d e) : Founded settings schema e ∧ e.declarations = d.declarations := by
  have hedited := (hsplit ▸ left_of_completes hfirst (.refl linkPasses) : Left (xs ++ ys) d).of_append.edited hrun
  exact ⟨(founded_laid_of_completes hfirst).1.edited hedited, hedited.declarations⟩

theorem autoId_of_links (hfirst : Completes firstPasses (.start settings schema) d) (hsplit : linkPasses = xs ++ ys)
    (hrun : Completes xs d e) (hs : d.declarations.get? owner = some s) (hm : e.models.get? owner = some m) : m.autoId = s.autoId := by
  obtain ⟨hfounded, hdeclarations⟩ := founded_of_links hfirst hsplit hrun
  exact hfounded.autoId owner m s hm (hdeclarations ▸ hs)

namespace Course

theorem completes_joins (c : Course settings schema) : Completes joinPasses c.owned c.linked :=
  c.joins.append (.cons c.morphTo c.parents)

theorem completes_paired (c : Course settings schema) : Completes linkPasses c.declared c.paired :=
  .cons c.belongsTo (c.completes_joins.append (.cons c.pivotModels (.cons c.morphColumns rfl)))

theorem links_quickened (c : Course settings schema) {schema' : SchemaDeclaration}
    (hfirst : Completes firstPasses (.start settings schema') b)
    (ha : c.Allows owner key times M) (h : c.declared.Widened owner key times b) (hd : c.declared.declarations.get? owner = some s)
    (hs : s.autoId = false) {s' : ModelDeclaration} (hb : b.declarations.get? owner = some s') (hs' : s'.autoId = key) :
    ∃ key' b', (key' = true → key = true) ∧ Completes linkPasses b b' ∧ c.paired.Widened owner key' times b' := by
  obtain ⟨b₁, hb₁, h₁⟩ := c.belongsTo_quickened ha h
  have hreads : ∀ x ∈ joinPasses, (∀ p ∈ x.provides.reads, p.isOutward = true) ∧ .columns ∉ x.provides.writes ∧
      .keys ∉ x.provides.writes := by decide
  obtain ⟨b₂, hb₂, h₂⟩ := h₁.links hreads ((left_joins c.columns).next c.belongsTo) ((left_joins hfirst).next hb₁) c.completes_joins
  obtain ⟨key', b₃, hkey, hb₃, h₃⟩ := h₂.pivotModels
    (fun hm => (autoId_of_links c.columns linkPasses_split (.cons c.belongsTo c.completes_joins) hd hm).trans hs)
    (fun hn => (autoId_of_links hfirst linkPasses_split (.cons hb₁ hb₂) hb hn).trans hs') c.pivotModels
  obtain ⟨b₄, hb₄, h₄⟩ := h₃.morphColumns c.sound_pivoted c.awaits_pivoted c.morphColumns
  exact ⟨key', b₄, hkey, .cons hb₁ (hb₂.append (.cons hb₃ (.cons hb₄ rfl))), h₄⟩

end Course

/-! ## The passes of attributes and tables -/

/-- The names that a model has for its columns and its relations are there before its attributes. -/
theorem names_of_modelAttributes (hd : d.Sound) (h : Pass.modelAttributes.body d = .ok () e) (hm : d.models.get? owner = some m)
    (hM : e.models.get? owner = some M) : M.physicalNames = m.physicalNames ∧
      ∀ name, (M.relations.get? name).isSome = (m.relations.get? name).isSome := by
  have hmM := ((edited_modelAttributes h).agrees hd).models hm hM
  have hcolumns : M.columns = m.columns := hmM.same (p := .columns) (by decide)
  refine ⟨?_, hmM.isSome_relation? fun kind => by cases kind <;> decide⟩
  unfold Model.physicalNames
  rw [hcolumns]

theorem exists_last_quickened {c : Course settings schema} {shelled tabled : Draft} (hstops : Stops c shelled tabled e)
    (hM : c.complete.models.get? owner = some M) (hroom : LeavesRoom c.complete.models owner columns M)
    (hkey : key = true → addsKey columns = true)
    (hd : c.paired.declarations.get? owner = some (ofColumns columns)) (hb : b.declarations.get? owner = some (quickened columns))
    (h : c.paired.Widened owner key (addsTimes columns) b) : ∃ e', Completes lastPasses b e' := by
  have hsound : c.paired.Sound := c.sound_pivoted.edited c.reaches_paired.1
  have hquickens : c.paired.Quickens owner columns key (addsTimes columns) b := ⟨h, hd, hb, fun hm name hname => by
    obtain ⟨hphysical, hrelations⟩ := names_of_modelAttributes hsound c.modelAttributes hm hM
    exact hphysical ▸ hrelations name ▸ hroom.secrets name hname⟩
  obtain ⟨b₁, hb₁, h₁⟩ := hquickens.modelAttributes hroom.apart c.modelAttributes
  obtain ⟨hb₂, _⟩ := h₁.finalizeModels (fun hm => Option.some_inj.mp (hM.symm.trans hm) ▸ hroom.admits.of_less hkey)
    hstops.finalizeModels
  obtain ⟨d₃, h₃, d₄, h₄, d₅, h₅, rfl⟩ := hstops.tables
  obtain ⟨b₃, hb₃, hwidened⟩ := h₁.explicitMigrations (by rw [c.founded.rest]; rfl) h₃
  obtain ⟨b₄, hb₄, htabled⟩ := (Draft.Tabled.of_widened hwidened).modelMigrations h₄
  obtain ⟨b₅, hb₅, htabled⟩ := htabled.pivotMigrations h₅
  obtain ⟨e', he'⟩ := htabled.artifacts hstops.artifacts
  exact ⟨e', .cons hb₁ (.cons hb₂ (.cons hb₃ (.cons hb₄ (.cons hb₅ (.cons he' rfl)))))⟩

/-! ## Whole runs -/

theorem exists_completes_quickened (hget : schema.models.get? owner = some (.map entries)) (hquick : Yaml.entry? entries "columns" = none)
    (hlines : ∀ x ∈ entries, IsLine x) (hread : columnLines (.map entries) = .ok columns)
    (h : Completes standardPasses (.start settings (schema.redeclared owner (columnsBlock entries))) e)
    (hM : e.models.get? owner = some M) (hroom : LeavesRoom e.models owner columns M) :
    ∃ e', Completes standardPasses (.start settings schema) e' := by
  obtain ⟨c, shelled, tabled, hstops⟩ := exists_stops h
  rw [hstops.complete] at hM hroom
  obtain ⟨hd, b, hfirst, hb, hwidened⟩ := exists_first_quickened c hget hquick hlines hread hM hroom
  have hauto : (quickened columns).autoId = addsKey columns := by
    obtain ⟨_, _, heq⟩ := quickened_eq columns
    rw [heq]
  obtain ⟨key, b', hkey, hlinks, hwidened⟩ := c.links_quickened hfirst (hroom.allows hM hd) hwidened hd rfl hb hauto
  obtain ⟨_, hdeclarations⟩ := founded_of_links c.columns (List.append_nil _).symm c.completes_paired
  obtain ⟨_, hdeclarations'⟩ := founded_of_links hfirst (List.append_nil _).symm hlinks
  obtain ⟨e', hlast⟩ := exists_last_quickened hstops hM hroom hkey (hdeclarations ▸ hd) (hdeclarations' ▸ hb) hwidened
  exact ⟨e', hfirst.append (hlinks.append hlast)⟩

end Schemata.Resolution
