import Schemata.Proofs.Resolution.KeyColumns
import Schemata.Proofs.Resolved.Basic

/-!
# Columns and declarations

Which lines of a declaration have a column in a resolved schema, and in which order.
-/

namespace Schemata.Resolved

open Resolution

variable {settings : Settings} {schema : SchemaDeclaration} {s : Resolved}

/-- The columns of a resolved model against the lines of its declaration. -/
structure Follows (settings : Settings) (schema : SchemaDeclaration) (k : String) (declaration : ModelDeclaration)
    (m : Model) : Prop where
  order : m.columns.keys.Sublist declaration.columns.keys
  filled : m.columns.pendingKeys = []
  /-- The line of a column has its column, unless it is the key that was added to what has become a pivot model. -/
  column : ∀ n ∈ declaration.columns.keys, (∀ kind, (n, kind) ∉ relationLines declaration) →
    (n ∈ m.columns.keys ↔ ¬(n = "id" ∧ m.isPivot = true ∧ declaration.autoId = true))
  relation : ∀ n kind, (n, kind) ∈ relationLines declaration → kind ≠ .belongsTo →
    (n ∈ m.columns.keys ↔ kind = .morphTo)
  /-- A `belongsTo` has none only if another column had the name of its key column when the line was resolved. -/
  belongsTo : ∀ n, (n, .belongsTo) ∈ relationLines declaration → ∃ l d owner target column,
    ComesTo (settingsFor settings schema) schema l d ∧ l.model = k ∧ l.name = n ∧
    d.models.get? k = some owner ∧ d.target l = .ok target.key ∧ d.models.get? target.key = some target ∧
    keyColumn l target = .ok column ∧
    m.relations.get? n = some ⟨n, l.methods, .belongsTo ⟨target.key, column.name, l.argument? 2⟩⟩ ∧
    (n ∉ m.columns.keys ↔ ∃ j c, j ≠ n ∧ owner.columns.get? j = some c ∧ c.name = column.name)
  marked : ∀ n kind column, (n, kind) ∈ relationLines declaration → m.columns.get? n = some column →
    column.relation.isSome = true

variable {c : Course settings schema} {k n : String} {m m₀ : Model} {declaration : ModelDeclaration}

theorem column_mem_iff (hm : c.complete.models.get? k = some m) (hl : Laid declaration m₀)
    (hk : Kept (relationLines declaration) m₀ m) (ha : m.autoId = declaration.autoId)
    (hn : n ∈ declaration.columns.keys) (hkind : ∀ kind, (n, kind) ∉ relationLines declaration) :
    n ∈ m.columns.keys ↔ ¬(n = "id" ∧ m.isPivot = true ∧ declaration.autoId = true) := by
  obtain ⟨line, hline⟩ := OrderedMap.mem_keys_iff.mp hn
  have hnone : DeclaredRelation.kindOf? (Shorthand.Call.ofLine line) = none := by
    cases hkindOf : DeclaredRelation.kindOf? (Shorthand.Call.ofLine line) with
    | none => rfl
    | some kind => exact absurd (mem_relationLines_iff.mpr ⟨line, hline, hkindOf⟩) (hkind kind)
  have hn₀ : n ∈ m₀.columns.keys := Slots.mem_keys_iff.mpr ⟨_, hl.slot?_column hline hnone⟩
  constructor
  · rintro hmem ⟨rfl, hpivot, hauto⟩
    exact (c.stripped hm ⟨hpivot, ha.trans hauto⟩).2 hmem
  · intro hid
    rcases hk.present hn₀ (hkind _) with hmem | ⟨rfl, hpivot, hauto⟩
    · exact hmem
    · exact absurd ⟨rfl, hpivot, ha ▸ hauto⟩ hid

theorem relation_mem_iff (hm : c.complete.models.get? k = some m) (hl : Laid declaration m₀)
    (hk : Kept (relationLines declaration) m₀ m) (hlines : c.complete.relationLines k = relationLines declaration)
    {kind : RelationKind} (hn : (n, kind) ∈ relationLines declaration) (hb : kind ≠ .belongsTo) :
    n ∈ m.columns.keys ↔ kind = .morphTo := by
  have hslot := hl.slot?_relation hn
  constructor
  · intro hmem
    obtain ⟨slot, hs⟩ := Slots.mem_keys_iff.mp (hk.keys.subset hmem)
    have hneeds : kind.needsColumn = true := by
      by_contra hneeds
      rw [hslot, if_neg hneeds] at hs
      cases hs
    cases kind <;> simp_all [RelationKind.needsColumn]
  · rintro rfl
    have hn₀ : n ∈ m₀.columns.keys := Slots.mem_keys_iff.mpr ⟨_, hslot⟩
    have hother : (n, .belongsTo) ∉ relationLines declaration := by
      intro hother
      rw [← hlines] at hn hother
      exact absurd (Draft.kind_unique hn hother) (by decide)
    rcases hk.present hn₀ hother with hmem | ⟨rfl, hg⟩
    · exact hmem
    · exact absurd (hlines ▸ hn) ((c.founded.sound.model k m hm).addedKey hg.2 _)

theorem not_mem_iff_of_owned {l : DeclaredRelation} {d : Draft} {owner target : Model} {column : Column}
    (h : c.Owned l d owner target column m) :
    l.name ∉ m.columns.keys ↔ ∃ j c, j ≠ l.name ∧ owner.columns.get? j = some c ∧ c.name = column.name := by
  constructor
  · intro hmem
    have hkey : declaredKey? owner l.name column.name ≠ none := by
      intro hkey
      obtain ⟨placed, hplaced, _⟩ := h.placed hkey
      exact hmem (Slots.mem_keys_iff.mpr ⟨_, Slots.get?_eq_some_iff.mp hplaced⟩)
    by_contra hall
    exact hkey (declaredKey?_eq_none_iff.mpr fun j c hj hc => by_contra fun hne => hall ⟨j, c, hne, hj, hc⟩)
  · rintro ⟨j, c, hne, hj, hc⟩
    cases hkey : declaredKey? owner l.name column.name with
    | none => exact absurd (declaredKey?_eq_none_iff.mp hkey j c hj hc) hne
    | some _ => exact h.given_up hkey

/-- The columns of a resolved model stand in the order in which it declares them. Every line of a column has its column but for
a key that was added to a pivot model, every `morphTo` has its pair, and a `belongsTo` is without a column only if another had
the name of its key. -/
theorem columns_follow_declaration (h : resolve settings schema = .ok s) {k : String} {m : Model}
    (hm : s.models.get? k = some m) : ∃ y declaration, schema.models.get? k = some y ∧
    modelDeclaration k y = .ok declaration ∧ Follows settings schema k declaration m := by
  obtain ⟨c, hmodels, _⟩ := exists_course_of_resolve h
  rw [hmodels] at hm
  obtain ⟨y, declaration, m₀, hy, hread, _, hlines, hl, hk, ha⟩ := c.exists_kept hm
  have hlines' : c.complete.relationLines k = relationLines declaration :=
    (c.edited_declared.relationLines k).trans hlines
  refine ⟨y, declaration, hy, hread, hk.keys.trans hl.keys_sublist, (c.complete_models hm).1,
    fun n => column_mem_iff hm hl hk ha, fun n kind => relation_mem_iff hm hl hk hlines', fun n hn => ?_,
    fun n kind column hn hcolumn => (c.founded.sound.model k m hm).tagged (hlines' ▸ hn) hcolumn⟩
  obtain ⟨l, d, owner, target, column, ho, rfl, rfl, _⟩ := c.exists_owned hm (hlines ▸ hn)
  exact ⟨l, d, owner, target, column, ho.comes, rfl, rfl, ho.get?_owner, ho.reference, ho.get?_target, ho.keyColumn_ok,
    ho.relation, not_mem_iff_of_owned ho⟩

/-- A pivot model with an added key, one of whose relations finds its key column declared. -/
def memberships : SchemaDeclaration where
  rootNamespace := none
  models := .ofList [
    ("User", declaredByLines [("name", "string"), ("roles", "belongsToMany:Role using:Membership")]),
    ("Role", declaredByLines [("label", "string")]),
    ("Membership", declaredByLines [("role_id", "unsignedBigInteger index"), ("user", "belongsTo"), ("role", "belongsTo")])]
  migrations := .empty

theorem memberships_columns_follow_declaration : ∃ s m y declaration, resolve .standard memberships = .ok s ∧
    s.models.get? "Membership" = some m ∧ memberships.models.get? "Membership" = some y ∧
    modelDeclaration "Membership" y = .ok declaration ∧ Follows .standard memberships "Membership" declaration m ∧
    declaration.columns.keys = ["id", "role_id", "user", "role", "timestamps"] ∧
    m.columns.keys = ["role_id", "user", "timestamps"] := by
  have hkeys : (resolve .standard memberships).toOption.any (fun s => (s.models.get? "Membership").any fun m =>
      m.columns.keys = ["role_id", "user", "timestamps"]) = true := by decide +kernel
  have hlines : ((memberships.models.get? "Membership").bind fun y => (modelDeclaration "Membership" y).toOption).map
      (·.columns.keys) = some ["id", "role_id", "user", "role", "timestamps"] := by decide +kernel
  obtain ⟨s, h, hs⟩ := exists_resolved_of_any hkeys
  obtain ⟨m, hm, hmkeys⟩ := exists_of_any hs
  obtain ⟨y, declaration, hy, hread, hf⟩ := columns_follow_declaration h hm
  rw [hy, Option.bind_some, hread] at hlines
  exact ⟨s, m, y, declaration, h, hm, hy, hread, hf, Option.some_inj.mp hlines, of_decide_eq_true hmkeys⟩

end Schemata.Resolved
