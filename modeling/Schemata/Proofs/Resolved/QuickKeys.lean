import Schemata.Proofs.Resolution.KeyColumns
import Schemata.Proofs.Resolution.Normalized
import Schemata.Proofs.Resolved.Basic

/-!
# Keys of quick models

A quick model has a key unless a line has passed for one that makes none: a relation that is called `id` or `uuid`, or a line that
names `primary` as its type.
-/

namespace Schemata.Resolved

open Resolution Schemata.Shorthand

variable {settings : Settings} {schema : SchemaDeclaration} {s : Resolved}

/-! ## Lines -/

/-- What a quick declaration takes for a key: no key is added where there is such a line. -/
def PassesForKey (n : String) (line : Option String) : Prop :=
  n = "uuid" ∨ n = "id" ∨ declaresPrimary line = true

/-- What makes a key: a column line whose column is primary. -/
def MakesKey (n : String) (line : Option String) : Prop :=
  DeclaredRelation.kindOf? (Call.ofLine line) = none ∧ (Column.ofLine n (Call.ofLine line)).isPrimary = true

theorem isPrimary_qualify (c : Column) : (c.qualify "primary").isPrimary = true := by
  simp [Column.isPrimary, Column.qualify, Call.push, Call.has, Method.bare]

/-- The column of a line `uuid` is a key of the type `uuid`, whatever the line says. -/
theorem makesKey_uuid {line : Option String} (h : DeclaredRelation.kindOf? (Call.ofLine line) = none) :
    MakesKey "uuid" line ∧ (Column.ofLine "uuid" (Call.ofLine line)).type = "uuid" := by
  have hlift : ∀ c : Column, c.liftComment.type = c.type := by
    intro c
    unfold Column.liftComment
    split <;> rfl
  obtain ⟨c, hc, heq⟩ : ∃ c : Column, c.type = "uuid" ∧ Column.ofLine "uuid" (Call.ofLine line) =
      if c.methods.has "primary" then c else c.qualify "primary" := ⟨_, hlift _, rfl⟩
  unfold MakesKey
  rw [heq]
  split
  · rename_i hprimary
    exact ⟨⟨h, by simp [Column.isPrimary, hprimary]⟩, hc⟩
  · exact ⟨⟨h, isPrimary_qualify c⟩, hc⟩

/-! ## Declarations -/

theorem get?_withTimestamps {declaration : ModelDeclaration} {n : String} {line : Option String}
    (h : declaration.columns.get? n = some line) : (withTimestamps declaration).columns.get? n = some line := by
  unfold withTimestamps
  split
  · exact h
  · rename_i hnone
    have hne : n ≠ "timestamps" := by
      rintro rfl
      have hmem : declaration.columns.contains "timestamps" = true :=
        OrderedMap.contains_iff.mpr (OrderedMap.mem_keys_iff.mpr ⟨line, h⟩)
      exact hnone (List.any_eq_true.mpr ⟨"timestamps", by decide, hmem⟩)
    exact (OrderedMap.get?_insert _ _ _ _).trans ((if_neg hne).trans h)

/-- Some line of a quick declaration passes for a key: where none does, one is added. -/
theorem exists_passesForKey {key : String} {entries : List (Yaml × Yaml)} {declaration : ModelDeclaration}
    (h : quickDeclaration key entries = .ok declaration) :
    ∃ n line, declaration.columns.get? n = some line ∧ PassesForKey n line := by
  obtain ⟨read, _, rfl⟩ := map_eq_ok.mp h
  suffices hkey : ∃ n line, (withKey read).columns.get? n = some line ∧ PassesForKey n line by
    obtain ⟨n, line, hline, hpasses⟩ := hkey
    exact ⟨n, line, get?_withTimestamps hline, hpasses⟩
  unfold withKey
  split
  · rename_i huuid
    obtain ⟨line, hline⟩ := OrderedMap.mem_keys_iff.mp (OrderedMap.contains_iff.mp huuid)
    exact ⟨"uuid", line, (OrderedMap.get?_erase _ _ _).trans ((if_neg (by decide)).trans hline), .inl rfl⟩
  · split
    · rename_i hdeclared
      rcases Bool.or_eq_true_iff.mp hdeclared with hid | hprimary
      · obtain ⟨line, hline⟩ := OrderedMap.mem_keys_iff.mp (OrderedMap.contains_iff.mp hid)
        exact ⟨"id", line, hline, .inr (.inl rfl)⟩
      · obtain ⟨line, hmem, hline⟩ := List.any_eq_true.mp hprimary
        obtain ⟨n, hn⟩ := OrderedMap.mem_values_iff.mp hmem
        exact ⟨n, line, hn, .inr (.inr hline)⟩
    · exact ⟨"id", none, OrderedMap.get?_eq_some_iff.mpr List.mem_cons_self, .inr (.inl rfl)⟩

/-! ## Models -/

variable {declaration : ModelDeclaration} {m m₀ : Model} {n : String}

theorem makesKey_iff (hl : Laid declaration m₀) : (∃ c, m₀.columns.get? n = some c ∧ c.isPrimary = true) ↔
    ∃ line, declaration.columns.get? n = some line ∧ MakesKey n line := by
  constructor
  · rintro ⟨c, hc, hp⟩
    obtain ⟨line, hline, hslot⟩ := hl.slot?_eq_some_iff.mp (Slots.get?_eq_some_iff.mp hc)
    cases hkind : DeclaredRelation.kindOf? (Call.ofLine line) with
    | some kind =>
      unfold columnSlot? at hslot
      rw [hkind] at hslot
      dsimp only at hslot
      split at hslot <;> cases hslot
    | none =>
      have hslot' := Slots.get?_eq_some_iff.mpr (hl.slot?_column hline hkind)
      obtain rfl := Option.some_inj.mp (hc.symm.trans hslot')
      exact ⟨line, hline, hkind, hp⟩
  · rintro ⟨line, hline, hkind, hp⟩
    exact ⟨_, Slots.get?_eq_some_iff.mpr (hl.slot?_column hline hkind), hp⟩

theorem primary_of_laid (hl : Laid declaration m₀) (hp : declaration.primary = none) :
    m₀.primary = (m₀.columns.values.find? Column.isPrimary).map PrimaryKey.ofColumn := by
  have hprimary := hl.primary
  unfold primaryKey at hprimary
  rw [hp] at hprimary
  exact (pure_eq_ok.mp hprimary).symm

section

variable {lines : List (String × RelationKind)} (hl : Laid declaration m₀) (hp : declaration.primary = none)
  (hk : Kept lines m₀ m) (hg : ¬GivesUpKey m)

include hk hg in
/-- A model that keeps its key has all its columns, with the relations that they belong to aside. -/
theorem exists_untagged {c₀ : Column} (h : m₀.columns.get? n = some c₀) :
    ∃ c, m.columns.get? n = some c ∧ c.untagged = c₀.untagged :=
  (hk.column h).resolve_right fun h => hg h.2

include hl hp hk hg

theorem primary_of_kept : m.primary = (m₀.columns.values.find? Column.isPrimary).map PrimaryKey.ofColumn :=
  (hk.primary.resolve_right fun h => hg h.2).trans (primary_of_laid hl hp)

theorem primary_eq_none_iff : m.primary = none ↔ ∀ n line, declaration.columns.get? n = some line → ¬MakesKey n line := by
  rw [primary_of_kept hl hp hk hg, Option.map_eq_none_iff, List.find?_eq_none]
  constructor
  · intro hnone n line hline hmakes
    obtain ⟨c, hget, hprimary⟩ := (makesKey_iff hl).mpr ⟨line, hline, hmakes⟩
    exact hnone c (Slots.mem_values_iff.mpr ⟨n, hget⟩) hprimary
  · intro hnone c hmem hprimary
    obtain ⟨n, hget⟩ := Slots.mem_values_iff.mp hmem
    obtain ⟨line, hline, hmakes⟩ := (makesKey_iff hl).mp ⟨c, hget, hprimary⟩
    exact hnone n line hline hmakes

theorem exists_keyColumn (hc : Creatable m.columns.values) {p : PrimaryKey} (hprimary : m.primary = some p) :
    ∃ n line c, declaration.columns.get? n = some line ∧ MakesKey n line ∧ m.columns.get? n = some c ∧ p = .ofColumn c ∧
      ∀ j c', m.columns.get? j = some c' → (c'.isPrimary = true ↔ j = n) := by
  obtain ⟨c₀, hfound, rfl⟩ := Option.map_eq_some_iff.mp ((primary_of_kept hl hp hk hg).symm.trans hprimary)
  obtain ⟨n, hn⟩ := Slots.mem_values_iff.mp (List.mem_of_find?_eq_some hfound)
  obtain ⟨line, hline, hmakes⟩ := (makesKey_iff hl).mp ⟨c₀, hn, List.find?_some hfound⟩
  obtain ⟨c, hget, hsame⟩ := exists_untagged hk hg hn
  -- The column may have learnt of a relation since its line was read, but neither whether it is primary nor its key reads that.
  have hisPrimary : c.isPrimary = true :=
    (Column.congr_untagged (g := Column.isPrimary) (fun _ => rfl) hsame).trans (List.find?_some hfound)
  refine ⟨n, line, c, hline, hmakes, hget, ?_, fun j c' hj => ⟨fun hj' => ?_, ?_⟩⟩
  · exact (Column.congr_untagged (g := PrimaryKey.ofColumn) (fun _ => rfl) hsame).symm
  · exact Slots.eq_of_countP_le_one hc.primary hj hj' hget hisPrimary
  · rintro rfl
    obtain rfl := Option.some_inj.mp (hget.symm.trans hj)
    exact hisPrimary

theorem exists_isUuid (hc : Creatable m.columns.values) {line : Option String}
    (hline : declaration.columns.get? "uuid" = some line) (hkind : DeclaredRelation.kindOf? (Call.ofLine line) = none) :
    ∃ p, m.primary = some p ∧ p.isUuid = true := by
  obtain ⟨hmakes, htype⟩ := makesKey_uuid hkind
  cases hm : m.primary with
  | none => exact absurd hmakes ((primary_eq_none_iff hl hp hk hg).mp hm "uuid" line hline)
  | some p =>
    -- The column of the line is primary, so it is the one that the key is of.
    obtain ⟨n, _, c, _, _, hget, rfl, honly⟩ := exists_keyColumn hl hp hk hg hc hm
    obtain ⟨c', hget', hsame⟩ := exists_untagged hk hg (Slots.get?_eq_some_iff.mpr (hl.slot?_column hline hkind))
    have hprimary : c'.isPrimary = true :=
      (Column.congr_untagged (g := Column.isPrimary) (fun _ => rfl) hsame).trans hmakes.2
    obtain rfl := (honly "uuid" c' hget').mp hprimary
    obtain rfl := Option.some_inj.mp (hget.symm.trans hget')
    have htype' : c.type = "uuid" := (Column.congr_untagged (g := Column.type) (fun _ => rfl) hsame).trans htype
    exact ⟨_, rfl, decide_eq_true htype'⟩

end

/-- The key of a model, by the lines of its declaration. -/
structure KeyedBy (declaration : ModelDeclaration) (m : Model) : Prop where
  /-- A key is that of the one primary column, and the line of the column makes it. -/
  column : ∀ p, m.primary = some p → ∃ n line c, declaration.columns.get? n = some line ∧ MakesKey n line ∧
    m.columns.get? n = some c ∧ p = .ofColumn c ∧ ∀ j c', m.columns.get? j = some c' → (c'.isPrimary = true ↔ j = n)
  uuid : ∀ line, declaration.columns.get? "uuid" = some line → DeclaredRelation.kindOf? (Call.ofLine line) = none →
    ∃ p, m.primary = some p ∧ p.isUuid = true
  without : m.primary = none ↔ ∀ n line, declaration.columns.get? n = some line → ¬MakesKey n line
  /-- There is a key if each line makes one that passes for one. -/
  present : (∀ n line, declaration.columns.get? n = some line → PassesForKey n line → MakesKey n line) → m.primary ≠ none

/-- The key of a quick model that is no pivot model is that of its one primary column, and it is of the type `uuid` if there is a column
line `uuid`. It is there exactly if a line makes it, and so if each line makes one that passes for one. -/
theorem quick_models_keyed (h : resolve settings schema = .ok s) {k : String} {m : Model} {entries : List (Yaml × Yaml)}
    (hm : s.models.get? k = some m) (hpivot : m.isPivot = false) (hy : schema.models.get? k = some (.map entries))
    (hquick : Yaml.entry? entries "columns" = none) :
    ∃ declaration, modelDeclaration k (.map entries) = .ok declaration ∧ KeyedBy declaration m := by
  obtain ⟨c, hmodels, hchecked⟩ := exists_course_of_resolve h
  have hcreatable : Creatable m.columns.values :=
    creatable_of_checked c.founded.sound (hmodels ▸ hm) (hchecked m (OrderedMap.mem_values_iff.mpr ⟨k, hm⟩))
  rw [hmodels] at hm
  obtain ⟨y, declaration, m₀, hy', hread, _, _, hlaid, hkept, _⟩ := c.exists_kept hm
  obtain rfl := Option.some_inj.mp (hy.symm.trans hy')
  have hdeclared := quickDeclaration_of_modelDeclaration hquick hread
  have hprimary : declaration.primary = none := by
    rw [(quick_of_quickDeclaration hdeclared).1.rest]
    rfl
  have hkeeps : ¬GivesUpKey m := fun hg => Bool.false_ne_true (hpivot.symm.trans hg.1)
  have hwithout := primary_eq_none_iff hlaid hprimary hkept hkeeps
  refine ⟨declaration, hread, fun p => exists_keyColumn hlaid hprimary hkept hkeeps hcreatable,
    fun line => exists_isUuid hlaid hprimary hkept hkeeps hcreatable, hwithout, fun hmakes hnone => ?_⟩
  obtain ⟨n, line, hline, hpasses⟩ := exists_passesForKey hdeclared
  exact hwithout.mp hnone n line hline (hmakes n line hline hpasses)

/-- A quick model whose lines include an `id` beside a `uuid` that is called otherwise. -/
def token : List (Yaml × Yaml) :=
  [(.str "id", .null), (.str "uuid", .str "uuid:token"), (.str "owner", .str "belongsTo:User"), (.str "label", .str "string")]

def tokens : SchemaDeclaration where
  rootNamespace := none
  models := .ofList [("User", declaredByLines [("name", "string")]), ("Token", .map token)]
  migrations := .empty

theorem tokens_keyed : ∃ s m declaration p, resolve .standard tokens = .ok s ∧ s.models.get? "Token" = some m ∧
    modelDeclaration "Token" (.map token) = .ok declaration ∧ declaration.columns.keys = ["uuid", "owner", "label", "timestamps"] ∧
    KeyedBy declaration m ∧ m.primary = some p ∧ p.isUuid = true ∧ p.column = "token" := by
  have htokens : (resolve .standard tokens).toOption.any (fun s => (s.models.get? "Token").any fun m =>
      m.isPivot = false ∧ m.primary.map (·.column) = some "token") = true := by decide +kernel
  have htoken : (modelDeclaration "Token" (.map token)).toOption.any (fun declaration =>
      declaration.columns.keys = ["uuid", "owner", "label", "timestamps"] ∧
      declaration.columns.get? "uuid" = some (some "uuid:token")) = true := by decide +kernel
  obtain ⟨s, h, hs⟩ := exists_resolved_of_any htokens
  obtain ⟨m, hm, hp⟩ := exists_of_any hs
  obtain ⟨hpivot, hcolumn⟩ := of_decide_eq_true hp
  obtain ⟨declaration, hread, hkeyed⟩ := quick_models_keyed h hm hpivot rfl rfl
  rw [hread] at htoken
  obtain ⟨hkeys, hline⟩ := of_decide_eq_true htoken
  obtain ⟨p, hprimary, huuid⟩ := hkeyed.uuid _ hline (by decide +kernel)
  rw [hprimary] at hcolumn
  exact ⟨s, m, declaration, p, h, hm, hread, hkeys, hkeyed, hprimary, huuid, Option.some_inj.mp hcolumn⟩

/-! ## Lines that pass for keys -/

def badges (lines : List (String × String)) : SchemaDeclaration where
  rootNamespace := none
  models := .ofList [("User", declaredByLines [("name", "string")]), ("Badge", declaredByLines lines)]
  migrations := .empty

/-- The schema resolves, and the model of the lines is neither a pivot model nor has it a key. -/
def LacksKey (lines : List (String × String)) : Prop :=
  (resolve .standard (badges lines)).toOption.any (fun s => (s.models.get? "Badge").any fun m =>
    !m.isPivot && m.primary.isNone) = true

instance (lines : List (String × String)) : Decidable (LacksKey lines) :=
  inferInstanceAs (Decidable (_ = _))

/-- No key is added where a relation is called `uuid` or `id`, nor where `primary` is the type of a column. -/
theorem quick_models_lack_keys : LacksKey [("uuid", "belongsTo:User"), ("label", "string")] ∧
    LacksKey [("id", "belongsTo:User"), ("label", "string")] ∧ LacksKey [("code", "primary"), ("label", "string")] := by
  decide +kernel

end Schemata.Resolved
