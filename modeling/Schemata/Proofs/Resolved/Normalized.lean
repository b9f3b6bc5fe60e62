import Schemata.Proofs.Resolution.Redeclared
import Schemata.Proofs.Resolved.Basic

/-!
# Quick models written out

A quick model means what the block means that writes out its columns, its hidden columns, its type, its traits and its factory.
-/

namespace Schemata.Resolved

open Resolution

variable {settings : Settings} {schema : SchemaDeclaration} {s : Resolved}

/-- A quick model that is the pivot model of no relation may be declared by the block that writes it out. The schema resolves as
before, except that the key of the model then counts as declared. -/
theorem resolve_spelled {key : String} {entries : List (Yaml × Yaml)} (h : resolve settings schema = .ok s)
    (hm : schema.models.get? key = some (.map entries)) (hquick : Yaml.entry? entries "columns" = none)
    (hpivot : ∀ m ∈ s.models.values, ∀ r ∈ m.relations.values, r.link.pivot? ≠ some key) :
    ∃ declaration, modelDeclaration key (.map entries) = .ok declaration ∧
      resolve settings (schema.redeclared key (spelled declaration (quickFactory? entries))) =
        .ok { s with models := s.models.modify key ({ · with autoId := false }) } := by
  obtain ⟨e, he, rfl⟩ := completes_of_resolve h
  obtain ⟨hread, _⟩ := readFrom_of_completes he
  obtain ⟨declaration, hs⟩ := OrderedMap.mem_keys_iff.mp (hread.keys ▸ OrderedMap.mem_keys_iff.mpr ⟨_, hm⟩ : key ∈ e.declarations.keys)
  obtain ⟨y, hy, hdeclared⟩ := hread.declaration key declaration hs
  obtain rfl := Option.some_inj.mp (hm.symm.trans hy)
  obtain ⟨hform, hspelled⟩ := modelDeclaration_spelled hquick hdeclared
  obtain ⟨e', he', hsettings, hmodels, hmigrations, hartifacts⟩ := completes_redeclared_unadded he hs hspelled hform.type
    fun k m n r hm hr => hpivot m (OrderedMap.mem_values_iff.mpr ⟨k, hm⟩) r (Slots.mem_values_iff.mpr ⟨n, hr⟩)
  have hvalid : (settingsFor settings schema).validate = .ok () := validate_of_resolve_ok h
  refine ⟨declaration, hdeclared, ?_⟩
  have hresolved : resolve settings (schema.redeclared key (spelled declaration (quickFactory? entries))) = .ok (ofDraft e') :=
    resolve_of_completes hvalid he'
  rw [hresolved]
  unfold ofDraft
  rw [hsettings, hmodels, hmigrations, hartifacts]

/-- A quick model with most of what a quick model may have. -/
def member : List (Yaml × Yaml) :=
  [(.str "name", .str "string"), (.str "traits", .seq [.str "Searchable", .str "App\\Traits\\Audited"]), (.str "score", .null),
   (.str "password", .str "string"), (.str "factory", .map [(.str "fields", .map [(.str "name", .str "fake()->firstName()")])]),
   (.str "notes", .str "hasMany:Note")]

def club : SchemaDeclaration where
  rootNamespace := none
  models := .ofList [("Member", .map member), ("Note", declaredByLines [("member", "belongsTo"), ("body", "text")])]
  migrations := .empty

theorem club_resolve_spelled : ∃ s declaration, resolve .standard club = .ok s ∧
    modelDeclaration "Member" (.map member) = .ok declaration ∧
    resolve .standard (club.redeclared "Member" (spelled declaration (quickFactory? member))) =
      .ok { s with models := s.models.modify "Member" ({ · with autoId := false }) } ∧
    (s.models.get? "Member").any (·.autoId) = true ∧
    declaration.columns.keys = ["id", "name", "score", "password", "notes", "timestamps"] ∧
    declaration.hidden = ["password"] ∧ declaration.type = some "user" := by
  have hm : club.models.get? "Member" = some (.map member) := rfl
  have hquick : Yaml.entry? member "columns" = none := rfl
  have hclub : (resolve .standard club).toOption.any (fun s => (s.models.get? "Member").any (·.autoId) = true ∧
      ∀ m ∈ s.models.values, ∀ r ∈ m.relations.values, r.link.pivot? ≠ some "Member") = true := by decide +kernel
  obtain ⟨s, h, hs⟩ := exists_resolved_of_any hclub
  obtain ⟨hauto, hpivot⟩ := of_decide_eq_true hs
  have hmember : (modelDeclaration "Member" (.map member)).toOption.any (fun declaration =>
      declaration.columns.keys = ["id", "name", "score", "password", "notes", "timestamps"] ∧
      declaration.hidden = ["password"] ∧ declaration.type = some "user") = true := by decide +kernel
  obtain ⟨declaration, hd, hshape⟩ := exists_of_any hmember
  obtain ⟨hcolumns, hhidden, htype⟩ := of_decide_eq_true hshape
  obtain ⟨declaration', hd', hresolve⟩ := resolve_spelled h hm hquick hpivot
  obtain rfl := Except.ok.inj ((ok_of_toOption hd).symm.trans hd')
  exact ⟨s, declaration, h, hd', hresolve, hauto, hcolumns, hhidden, htype⟩

end Schemata.Resolved
