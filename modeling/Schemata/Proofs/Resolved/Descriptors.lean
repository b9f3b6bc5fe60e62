import Schemata.Proofs.Resolution.Pointers
import Schemata.Proofs.Resolved.Basic

/-!
# Descriptors of a resolved schema

The columns that a model's descriptors name are columns of its table: key columns, the primary key, the column of deletion and
the pairs of pointers. A key is looked for by the names of columns and not of physical ones, and a pivot model gives up a key
that was added to it even if a relation rests on it; so these two may be missing.
-/

namespace Schemata.Resolved

open Resolution

variable {settings : Settings} {schema : SchemaDeclaration} {s : Resolved} {k name : String} {m : Model}

/-- The column of a name stands for several physical columns. -/
def Spread (m : Model) (name : String) : Prop :=
  ∃ column ∈ m.columns.values, column.name = name ∧ (column.isTimestamps = true ∨ column.isMorphs = true)

/-- The columns that the descriptors of a model rely on are physical columns of its table. -/
structure Backed (m : Model) : Prop where
  belongsTo {r link} : (r, link) ∈ m.belongsToRelations → link.columnKey ∈ m.physicalNames ∨ Spread m link.columnKey ∨
    link.columnKey = "id" ∧ m.isPivot = true ∧ m.autoId = true
  primary {key} : m.primary = some key → key.column ∈ m.physicalNames ∨ Spread m key.column
  softDelete {deletion} : m.softDelete = some deletion → deletion.column ∈ m.physicalNames
  morphTo {r link} : (r, link) ∈ m.morphToRelations →
    link.columnName ++ "_type" ∈ m.physicalNames ∧ link.columnName ++ "_id" ∈ m.physicalNames

theorem mem_physicalNames {j : String} {column : Column} (hj : m.columns.get? j = some column)
    (h : name ∈ column.physicalNames) : name ∈ m.physicalNames :=
  List.mem_flatMap.mpr ⟨column, Slots.mem_values_iff.mpr ⟨j, hj⟩, h⟩

theorem physical_or_spread {j : String} {column : Column} (hj : m.columns.get? j = some column) (hn : column.name = name) :
    name ∈ m.physicalNames ∨ Spread m name := by
  rcases column.name_mem_physicalNames with hname | hspread
  · exact .inl (mem_physicalNames hj (hn ▸ hname))
  · exact .inr ⟨column, Slots.mem_values_iff.mpr ⟨j, hj⟩, hn, hspread⟩

section

variable (c : Course settings schema) (hm : c.complete.models.get? k = some m)
include hm

theorem belongsTo_backed {r : Relation} {link : BelongsTo} (hr : (r, link) ∈ m.belongsToRelations) :
    link.columnKey ∈ m.physicalNames ∨ Spread m link.columnKey ∨ link.columnKey = "id" ∧ GivesUpKey m := by
  obtain ⟨n, hr, hl⟩ := mem_belongsToRelations.mp hr
  have hkind : (n, .belongsTo) ∈ c.declared.relationLines k := by
    have hkind := c.mem_relationLines hm hr
    rwa [Relation.kind, hl] at hkind
  obtain ⟨l, _, _, _, _, ho, rfl, rfl, _⟩ := c.exists_owned hm hkind
  obtain rfl := Option.some_inj.mp (hr.symm.trans ho.relation)
  obtain rfl := Link.belongsTo.inj hl
  rcases c.exists_named_or_given_up ho hm with ⟨j, placed, hj, hname⟩ | hgiven
  · exact (physical_or_spread hj hname).imp_right .inl
  · exact .inr (.inr hgiven)

theorem primary_backed {key : PrimaryKey} (hkey : m.primary = some key) :
    key.column ∈ m.physicalNames ∨ Spread m key.column := by
  obtain ⟨_, _, m₀, _, _, _, _, hl, hkept, _⟩ := c.exists_kept hm
  have hne : m.primary ≠ none := by simp [hkey]
  have hprimary : m₀.primary.isSome := by
    rw [← hkept.primary.resolve_right fun hp => hne hp.1, hkey]
    rfl
  obtain ⟨column, hcolumn⟩ := hl.primaryColumn? hprimary
  obtain ⟨j, placed, _, hj, _, hname⟩ := hkept.keyColumn hcolumn (fun hg => (c.stripped hm hg).1) hne
  refine physical_or_spread hj (hname.trans ?_)
  rw [Model.primaryName, hkey]
  rfl

/-- The key that is added to a model is no column of deletion, so no model gives that column up. -/
theorem softDelete_backed {deletion : SoftDelete} (hdeletion : m.softDelete = some deletion) :
    deletion.column ∈ m.physicalNames := by
  obtain ⟨_, declaration, m₀, _, hread, hm₀, _, hl, hkept, ha⟩ := c.exists_kept hm
  rw [c.edited_declared.softDelete hm₀ hm, hl.softDelete] at hdeletion
  obtain ⟨column, hfound, rfl⟩ := Option.map_eq_some_iff.mp hdeletion
  have hsoft : column.isSoftDeletes = true := by simpa using List.find?_some hfound
  obtain ⟨j, hj⟩ := Slots.mem_values_iff.mp (List.mem_of_find?_eq_some hfound)
  rcases hkept.column hj with ⟨placed, hplaced, hu⟩ | ⟨rfl, hg⟩
  · have hplacedSoft : placed.isSoftDeletes = true := by
      change placed.untagged.isSoftDeletes = true
      rw [hu]
      exact hsoft
    rw [← Column.name_eq_of_untagged hu]
    exact mem_physicalNames hplaced (Column.name_mem_of_isSoftDeletes hplacedSoft)
  · have hadded := hl.get?_added (startsWithKey_of_autoId hread (ha ▸ hg.2)).1
    obtain rfl := Option.some_inj.mp (hj.symm.trans hadded)
    exact absurd hsoft (by decide)

theorem morphTo_backed {r : Relation} {link : MorphTo} (hr : (r, link) ∈ m.morphToRelations) :
    link.columnName ++ "_type" ∈ m.physicalNames ∧ link.columnName ++ "_id" ∈ m.physicalNames := by
  obtain ⟨n, hr, hl⟩ := mem_morphToRelations.mp hr
  obtain ⟨l, shape, hpaired, _⟩ := c.exists_paired hm hr hl
  obtain ⟨column, hcolumn, hnames⟩ := hpaired.hasPair
  exact ⟨mem_physicalNames hcolumn (by simp [hnames]), mem_physicalNames hcolumn (by simp [hnames])⟩

end

/-- The columns that the descriptors of a resolved model rely on are there. Only the column of a `belongsTo` or of a primary key
may be one that stands for others, and only the column of a `belongsTo` may be the key that a pivot model has given up. -/
theorem descriptors_backed (h : resolve settings schema = .ok s) (hm : s.models.get? k = some m) : Backed m := by
  obtain ⟨c, hmodels, _⟩ := exists_course_of_resolve h
  rw [hmodels] at hm
  exact ⟨belongsTo_backed c hm, primary_backed c hm, softDelete_backed c hm, morphTo_backed c hm⟩

/-- A schema with a model that has descriptors of all kinds. -/
def newsroom : SchemaDeclaration where
  rootNamespace := none
  models := .ofList [
    ("User", declaredByLines [("name", "string"), ("remarks", "morphMany:Remark")]),
    ("Article", declaredByLines [("title", "string"), ("remarks", "morphMany:Remark")]),
    ("Remark", declaredByLines [("writer", "belongsTo:User,writer_id"), ("subject", "morphTo"), ("body", "text"),
      ("softDeletes", "softDeletes:removed_at")])]
  migrations := .empty

theorem newsroom_descriptors_backed : ∃ s m r link pointer, resolve .standard newsroom = .ok s ∧
    s.models.get? "Remark" = some m ∧ (r, link) ∈ m.belongsToRelations ∧ link.columnKey = "writer_id" ∧
    m.primary = some .conventional ∧ m.softDelete = some ⟨"removed_at"⟩ ∧ pointer ∈ m.morphToRelations ∧
    pointer.2.columnName = "subject" ∧ Backed m ∧
    m.physicalNames = ["id", "writer_id", "subject_type", "subject_id", "body", "removed_at", "created_at", "updated_at"] := by
  have hremark : (resolve .standard newsroom).toOption.any (fun s => (s.models.get? "Remark").any fun m =>
      m.primary = some .conventional ∧ m.softDelete = some ⟨"removed_at"⟩ ∧
      (m.belongsToRelations.map (·.2.columnKey) = ["writer_id"]) ∧ (m.morphToRelations.map (·.2.columnName) = ["subject"]) ∧
      m.physicalNames = ["id", "writer_id", "subject_type", "subject_id", "body", "removed_at", "created_at", "updated_at"]) =
      true := by decide +kernel
  obtain ⟨s, h, hs⟩ := exists_resolved_of_any hremark
  obtain ⟨m, hm, hp⟩ := exists_of_any hs
  obtain ⟨hprimary, hdeletion, hkeys, hpointers, hnames⟩ := of_decide_eq_true hp
  obtain ⟨⟨r, link⟩, hr, hkey⟩ := List.mem_map.mp (hkeys.symm ▸ List.mem_cons_self : "writer_id" ∈ m.belongsToRelations.map _)
  obtain ⟨pointer, hpointer, hname⟩ := List.mem_map.mp (hpointers.symm ▸ List.mem_cons_self : "subject" ∈ m.morphToRelations.map _)
  exact ⟨s, m, r, link, pointer, h, hm, hr, hkey, hprimary, hdeletion, hpointer, hname, descriptors_backed h hm, hnames⟩

/-- A pivot model with a relation whose key column is called as the key that was added. -/
def clubs : SchemaDeclaration where
  rootNamespace := none
  models := .ofList [
    ("User", declaredByLines [("roles", "belongsToMany using:Membership")]),
    ("Role", declaredByLines [("label", "string")]),
    ("Membership", declaredByLines [("user", "belongsTo:User,id"), ("role", "belongsTo")])]
  migrations := .empty

theorem clubs_lacks_key_column : ∃ s m r link, resolve .standard clubs = .ok s ∧ s.models.get? "Membership" = some m ∧
    (r, link) ∈ m.belongsToRelations ∧ link.columnKey = "id" ∧ "id" ∉ m.physicalNames := by
  have hclubs : (resolve .standard clubs).toOption.any (fun s => (s.models.get? "Membership").any fun m =>
      "id" ∈ m.belongsToRelations.map (·.2.columnKey) ∧ "id" ∉ m.physicalNames) = true := by decide +kernel
  obtain ⟨s, h, hs⟩ := exists_resolved_of_any hclubs
  obtain ⟨m, hm, hp⟩ := exists_of_any hs
  obtain ⟨hkey, hid⟩ := of_decide_eq_true hp
  obtain ⟨⟨r, link⟩, hr, hkey⟩ := List.mem_map.mp hkey
  exact ⟨s, m, r, link, h, hm, hr, hkey, hid⟩

/-- A model whose primary key is said to be the column of a pair. -/
def log : SchemaDeclaration where
  rootNamespace := none
  models := .ofList [("Log", .map [
    (.str "columns", declaredByLines [("subject", "morphs"), ("body", "text")]),
    (.str "primary", .map [(.str "column", .str "subject")])])]
  migrations := .empty

theorem log_lacks_primary_column : ∃ s m key, resolve .standard log = .ok s ∧ s.models.get? "Log" = some m ∧
    m.primary = some key ∧ key.column = "subject" ∧ m.physicalNames = ["subject_type", "subject_id", "body"] := by
  have hlog : (resolve .standard log).toOption.any (fun s => (s.models.get? "Log").any fun m =>
      m.primary.map (·.column) = some "subject" ∧ m.physicalNames = ["subject_type", "subject_id", "body"]) = true := by
    decide +kernel
  obtain ⟨s, h, hs⟩ := exists_resolved_of_any hlog
  obtain ⟨m, hm, hp⟩ := exists_of_any hs
  obtain ⟨hkey, hnames⟩ := of_decide_eq_true hp
  obtain ⟨key, hkey, hcolumn⟩ := Option.map_eq_some_iff.mp hkey
  exact ⟨s, m, key, h, hm, hkey, hcolumn, hnames⟩

end Schemata.Resolved
