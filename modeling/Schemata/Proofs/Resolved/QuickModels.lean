import Schemata.Proofs.Resolution.QuickRuns
import Schemata.Proofs.Resolved.Basic

/-!
# Lines that become a quick model

A schema in which a model has columns only resolves when these make a quick declaration, if what the model has come to leaves room for
what the declaration adds.
-/

namespace Schemata.Resolved

open Declaration Resolution

variable {settings : Settings} {schema : SchemaDeclaration} {s : Resolved}

/-- A quick declaration fails in no way in which its lines do not fail in a block of columns, as long as it adds no key, timestamps or
hidden names that do not go with the columns there, and drops no line. -/
theorem resolve_quickened {key : String} {entries : List (Yaml × Yaml)} {columns : OrderedMap (Option String)} {m : Model}
    (h : resolve settings (schema.redeclared key (columnsBlock entries)) = .ok s) (hget : schema.models.get? key = some (.map entries))
    (hquick : Yaml.entry? entries "columns" = none) (hlines : ∀ x ∈ entries, IsLine x) (hread : columnLines (.map entries) = .ok columns)
    (hm : s.models.get? key = some m) (hroom : LeavesRoom s.models key columns m) : ∃ s', resolve settings schema = .ok s' := by
  obtain ⟨e, he, rfl⟩ := completes_of_resolve h
  obtain ⟨e', he'⟩ := exists_completes_quickened hget hquick hlines hread he hm hroom
  have hvalid := validate_of_resolve_ok h
  have hresolved : resolve settings schema = .ok (ofDraft e') := resolve_of_completes hvalid he'
  exact ⟨ofDraft e', hresolved⟩

/-- The lines of a quick model to which a key, timestamps and a hidden name are added. -/
def account : List (Yaml × Yaml) :=
  [(.str "name", .str "string"), (.str "password", .str "string"), (.str "note", .null), (.str "club", .str "belongsTo nullable"),
   (.str "entries", .str "hasMany:Entry")]

def ledger : SchemaDeclaration where
  rootNamespace := none
  models := .ofList [("Account", .map account), ("Club", declaredByLines [("title", "string")]),
    ("Entry", declaredByLines [("account", "belongsTo:Account,holder_id"), ("amount", "integer")])]
  migrations := .empty

theorem ledger_resolve_quickened : ∃ s s' columns m, resolve .standard (ledger.redeclared "Account" (columnsBlock account)) = .ok s ∧
    columnLines (.map account) = .ok columns ∧ s.models.get? "Account" = some m ∧ LeavesRoom s.models "Account" columns m ∧
    addsKey columns = true ∧ addsTimes columns = true ∧ secretColumns columns = ["password"] ∧ resolve .standard ledger = .ok s' := by
  have hget : ledger.models.get? "Account" = some (.map account) := rfl
  have hquick : Yaml.entry? account "columns" = none := rfl
  have hlines : ∀ x ∈ account, IsLine x := by
    simp only [account, List.forall_mem_cons]
    exact ⟨⟨rfl, rfl⟩, ⟨rfl, rfl⟩, ⟨rfl, rfl⟩, ⟨rfl, rfl⟩, ⟨rfl, rfl⟩, fun _ h => absurd h List.not_mem_nil⟩
  have hread : (columnLines (.map account)).toOption.any (fun columns => addsKey columns = true ∧ addsTimes columns = true ∧
      secretColumns columns = ["password"] ∧
      (resolve .standard (ledger.redeclared "Account" (columnsBlock account))).toOption.any fun s =>
        (s.models.get? "Account").any fun m => LeavesRoom s.models "Account" columns m) = true := by decide +kernel
  obtain ⟨columns, hread, hcolumns⟩ := exists_of_any hread
  obtain ⟨hkey, htimes, hsecret, hresolved⟩ := of_decide_eq_true hcolumns
  obtain ⟨s, h, hs⟩ := exists_resolved_of_any hresolved
  obtain ⟨m, hm, hroom⟩ := exists_of_any hs
  have hroom := of_decide_eq_true hroom
  have hread := ok_of_toOption hread
  obtain ⟨s', hs'⟩ := resolve_quickened h hget hquick hlines hread hm hroom
  exact ⟨s, s', columns, m, h, hread, hm, hroom, hkey, htimes, hsecret, hs'⟩

/-! ## Lines that leave no room -/

/-- A schema of one model. -/
def onlyPost (value : Yaml) : SchemaDeclaration where
  rootNamespace := none
  models := .ofList [("Post", value)]
  migrations := .empty

/-- A model with some lines resolves if they stand in a block of columns, and fails if they make a quick declaration. -/
def FailsAsQuick (lines : List (String × String)) : Prop :=
  (resolve .standard (onlyPost (.map [(.str "columns", declaredByLines lines)]))).toOption.isSome = true ∧
    (resolve .standard (onlyPost (declaredByLines lines))).toOption.isSome = false

instance (lines : List (String × String)) : Decidable (FailsAsQuick lines) :=
  inferInstanceAs (Decidable (_ ∧ _))

/-- A key is added next to one that counts up under another name, timestamps are added next to columns of their names, the name of a line
is hidden that makes two columns, the key column of a relation is made like the timestamps that are added, and a relation is dropped. -/
theorem fails_as_quick : FailsAsQuick [("number", "bigIncrements"), ("title", "string")] ∧
    FailsAsQuick [("created_at", "timestamp"), ("title", "string")] ∧ FailsAsQuick [("stamps", "timestamps"), ("title", "string")] ∧
    FailsAsQuick [("secret", "morphs"), ("title", "string")] ∧
    FailsAsQuick [("title", "string"), ("post", "belongsTo:Post,post_timestamps")] ∧
    FailsAsQuick [("uuid", "string"), ("id", "belongsTo:Post,post_id"), ("posts", "hasMany")] := by
  decide +kernel

end Schemata.Resolved
