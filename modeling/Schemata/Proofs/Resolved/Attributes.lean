import Schemata.Proofs.Resolved.Columns

/-!
# Attributes of a resolved schema

The attributes of a model are those of its declaration, and each name in them is that of something that the model has in the end.
-/

namespace Schemata.Resolved

open Resolution

variable {settings : Settings} {schema : SchemaDeclaration} {s : Resolved}

/-- The attributes of a resolved model, by its declaration and by what is there. -/
structure Attributed (s : Resolved) (declaration : ModelDeclaration) (k : String) (m : Model) : Prop where
  fillable : m.fillable ⊆ m.physicalNames
  routeKey : ∀ name ∈ m.routeKey, name ∈ m.physicalNames
  timestamps : ∀ t ∈ m.timestamps, t.createdAt ∈ m.physicalNames ∧ t.updatedAt ∈ m.physicalNames
  indexes : ∀ i ∈ m.indexes, i.columns ⊆ m.physicalNames
  hidden : ∀ name ∈ m.hidden, (name ∈ m.physicalNames ∨ name ∈ m.append) ∨ ∃ r, m.relations.get? name = some r
  casts : ∀ name ∈ m.casts.keys, name ∈ m.physicalNames ∨ name ∈ m.append
  /-- A declared cast comes before the one that follows from the type of the column. -/
  cast : ∀ name cast, m.casts.get? name = some cast ↔ declaration.casts.get? name = some cast ∨
    declaration.casts.get? name = none ∧ ∃ c ∈ m.columns.values, c.name = name ∧ c.castType? = some cast
  /-- Left out, the columns that may be filled are all that are neither keys nor shorthands nor hidden, in order. -/
  defaultFillable : declaration.fillable = none → m.fillable =
    ((m.columns.values.filter fun c => !c.isPrimary && !c.isShorthand).flatMap Column.physicalNames).filter (· ∉ m.hidden)
  eager : ∀ path ∈ m.eager, ∃ segments, IsPath path segments ∧ Leads s.models k segments
  declared : m.hidden = declaration.hidden.eraseDups ∧ m.append = declaration.append.eraseDups ∧
    (∀ names, declaration.fillable = some names → m.fillable = names.eraseDups) ∧ m.routeKey = declaration.route ∧
    m.indexes = declaration.indexes.map declaredIndex ∧ m.eager = declaration.eager

theorem attributed_of_knows {declaration : ModelDeclaration} {k : String} {m : Model} (hc : Creatable m.columns.values)
    (hk : Knows declaration m) (heager : ∀ path ∈ declaration.eager, ∃ segments, IsPath path segments ∧ Leads s.models k segments) :
    Attributed s declaration k (withAttributes declaration m) where
  fillable := by
    intro name hname
    change name ∈ (declaration.fillable.getD (defaultFillable m declaration.hidden)).eraseDups at hname
    rw [List.mem_eraseDups] at hname
    cases hf : declaration.fillable with
    | some names =>
      rw [hf] at hname
      exact hk.fillable names hf hname
    | none =>
      rw [hf] at hname
      exact (List.filter_sublist.flatMap _).subset (List.mem_of_mem_filter hname)
  routeKey := hk.route
  timestamps := hk.timestamps
  indexes := by
    intro _ hi
    obtain ⟨i, hdeclared, rfl⟩ := List.mem_map.mp hi
    exact hk.indexes i hdeclared
  hidden name hname := by
    have happend : name ∈ (withAttributes declaration m).append ↔ name ∈ declaration.append := List.mem_eraseDups
    rw [happend, ← Option.isSome_iff_exists]
    exact hk.hidden name (List.mem_eraseDups.mp hname)
  casts name hname := by
    have happend : name ∈ (withAttributes declaration m).append ↔ name ∈ declaration.append := List.mem_eraseDups
    rw [happend]
    obtain ⟨cast, hcast⟩ := OrderedMap.mem_keys_iff.mp hname
    rcases (get?_castsOf hc).mp hcast with hdeclared | ⟨_, c, hmem, rfl, htype⟩
    · exact hk.casts name (OrderedMap.mem_keys_iff.mpr ⟨cast, hdeclared⟩)
    · have hphysical : c.name ∈ c.physicalNames := by simp [Column.physicalNames_of_castType? htype]
      exact .inl (List.mem_flatMap.mpr ⟨c, hmem, hphysical⟩)
  cast _ _ := get?_castsOf hc
  defaultFillable hf := by
    have hfillable : (withAttributes declaration m).fillable = (defaultFillable m declaration.hidden).eraseDups := by
      change (declaration.fillable.getD _).eraseDups = _
      rw [hf]
      rfl
    rw [hfillable, eraseDups_eq_self (defaultFillable_nodup hc _)]
    refine List.filter_congr fun name _ => ?_
    have hhidden : name ∈ (withAttributes declaration m).hidden ↔ name ∈ declaration.hidden := List.mem_eraseDups
    simp [hhidden]
  eager := heager
  declared := by
    refine ⟨rfl, rfl, fun names hf => ?_, rfl, rfl, rfl⟩
    change (declaration.fillable.getD _).eraseDups = _
    rw [hf]
    rfl

/-- The attributes of a resolved model are those of its declaration. What they name is there in the end: physical columns,
appended attributes and relations, and paths through relations that are there. -/
theorem attributes_known (h : resolve settings schema = .ok s) {k : String} {m : Model} (hm : s.models.get? k = some m) :
    ∃ y declaration, schema.models.get? k = some y ∧ modelDeclaration k y = .ok declaration ∧ Attributed s declaration k m := by
  obtain ⟨c, hmodels, hchecked⟩ := exists_course_of_resolve h
  have hc : Creatable m.columns.values :=
    creatable_of_checked c.founded.sound (hmodels ▸ hm) (hchecked m (OrderedMap.mem_values_iff.mpr ⟨k, hm⟩))
  rw [hmodels] at hm
  obtain ⟨declaration, m₀, hdeclaration, _, rfl, hknows, heager⟩ := exists_attributes c.modelAttributes hm
  rw [← (edited_modelAttributes c.modelAttributes).declarations] at hdeclaration
  obtain ⟨y, hy, hread⟩ := c.founded.read.declaration k declaration hdeclaration
  rw [← hmodels] at heager
  exact ⟨y, declaration, hy, hread, attributed_of_knows hc hknows heager⟩

/-- Entries of a block that are lists of texts. -/
def textList (texts : List String) : Yaml :=
  .seq (texts.map .str)

/-- A schema with attributes of most kinds, one path of which ends at a pointer. -/
def museum : SchemaDeclaration where
  rootNamespace := none
  models := .ofList [
    ("Painter", .map [
      (.str "columns", declaredByLines [("id", "id"), ("name", "string"), ("active", "boolean"), ("born", "date"),
        ("password", "string"), ("paintings", "hasMany"), ("timestamps", "timestamps")]),
      (.str "hidden", textList ["password", "paintings"]), (.str "append", textList ["label"]),
      (.str "casts", .map [(.str "active", .str "integer"), (.str "label", .str "string")]),
      (.str "with", textList ["paintings.notes.subject.owner"]), (.str "route", .str "name"),
      (.str "indexes", .seq [.str "name,created_at"])]),
    ("Painting", declaredByLines [("painter", "belongsTo"), ("title", "string"), ("notes", "morphMany")]),
    ("Note", declaredByLines [("subject", "morphTo"), ("body", "text")])]
  migrations := .empty

theorem museum_attributes_known : ∃ s m declaration, resolve .standard museum = .ok s ∧ s.models.get? "Painter" = some m ∧
    Attributed s declaration "Painter" m ∧ m.physicalNames = ["id", "name", "active", "born", "password", "created_at", "updated_at"] ∧
    m.fillable = ["name", "active", "born"] ∧ m.hidden = ["password", "paintings"] ∧
    m.casts.entries = [("active", "integer"), ("born", "date"), ("label", "string")] ∧ m.routeKey = some "name" ∧
    m.eager = ["paintings.notes.subject.owner"] := by
  have hmuseum : (resolve .standard museum).toOption.any (fun s => (s.models.get? "Painter").any fun m =>
      m.physicalNames = ["id", "name", "active", "born", "password", "created_at", "updated_at"] ∧
      m.fillable = ["name", "active", "born"] ∧ m.hidden = ["password", "paintings"] ∧
      m.casts.entries = [("active", "integer"), ("born", "date"), ("label", "string")] ∧ m.routeKey = some "name" ∧
      m.eager = ["paintings.notes.subject.owner"]) = true := by decide +kernel
  obtain ⟨s, h, hs⟩ := exists_resolved_of_any hmuseum
  obtain ⟨m, hm, hp⟩ := exists_of_any hs
  obtain ⟨_, declaration, _, _, hattributed⟩ := attributes_known h hm
  exact ⟨s, m, declaration, h, hm, hattributed, of_decide_eq_true hp⟩

end Schemata.Resolved
