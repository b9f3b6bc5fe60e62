import Schemata.Proofs.Resolution.Normalized
import Schemata.Proofs.Resolved.Factories

/-!
# Secret columns

The columns of a quick declaration that are secret by their names are hidden, and neither filled by default nor by the factory.
-/

namespace Schemata.Resolved

open Resolution Schemata.Shorthand Schemata.Text

variable {settings : Settings} {schema : SchemaDeclaration} {s : Resolved}

/-! ## Secret names -/

/-- A name is secret if one of the markers is in it, whatever the case. -/
def IsSecret (name : String) : Prop :=
  name = "rememberToken" ∨ ∃ marker ∈ ["password", "private", "hidden", "secret"], marker.toList <:+: lowerChars name.toList

theorem occursIn_iff {word cs : List Char} : occursIn word cs = true ↔ word <:+: cs := by
  induction cs with
  | nil => simp [occursIn]
  | cons c rest ih => rw [occursIn, Bool.or_eq_true, ih, List.isPrefixOf_iff_prefix, List.infix_cons_iff]

theorem isSecret_iff {name : String} : isSecret name = true ↔ IsSecret name := by
  unfold isSecret IsSecret
  rw [Bool.or_eq_true, decide_eq_true_eq, List.any_eq_true]
  simp only [occursIn_iff]
  rfl

/-- The only shorthand that is secret is the one of a token. -/
theorem shorthandName?_of_isSecret {name : String} (h : isSecret name = true) : name ≠ "id" ∧ name ≠ "uuid" ∧
    ∀ default, Column.shorthandName? name = some default → default = "remember_token" := by
  have hopen : ∀ other ∈ ["id", "uuid", "timestamps", "timestampsTz", "nullableTimestamps", "softDeletes", "softDeletesTz"],
      isSecret other = false := by decide +kernel
  have hne : ∀ other ∈ ["id", "uuid", "timestamps", "timestampsTz", "nullableTimestamps", "softDeletes", "softDeletesTz"],
      name ≠ other := by
    rintro other hother rfl
    exact Bool.false_ne_true ((hopen name hother).symm.trans h)
  simp only [List.forall_mem_cons] at hne
  obtain ⟨hid, huuid, htimestamps, htimestampsTz, hnullable, hdeletes, hdeletesTz, -⟩ := hne
  refine ⟨hid, huuid, fun default hdefault => ?_⟩
  simp [Column.shorthandName?, Column.timestampsTypes, Column.softDeletesTypes, *] at hdefault
  exact hdefault.2.symm

/-- A secret column has the name of its line, or that of its shorthand. -/
theorem name_of_isSecret {name : String} (h : isSecret name = true) (call : Call) :
    (Column.ofLine name call).name = (Column.shorthandName? name).getD name := by
  obtain ⟨hid, huuid, hshorthand⟩ := shorthandName?_of_isSecret h
  have hlift : ∀ c : Column, c.liftComment.name = c.name := by
    intro c
    unfold Column.liftComment
    split <;> rfl
  unfold Column.ofLine
  rw [if_neg hid, if_neg huuid]
  cases hs : Column.shorthandName? name with
  | none =>
    dsimp only
    split <;> rfl
  | some default =>
    obtain rfl := hshorthand default hs
    exact hlift _

theorem mem_secretColumns {columns : OrderedMap (Option String)} {name : String} {line : Option String}
    (hline : columns.get? name = some line) (hkind : DeclaredRelation.kindOf? (Call.ofLine line) = none)
    (hsecret : isSecret name = true) : (Column.shorthandName? name).getD name ∈ secretColumns columns := by
  refine List.mem_filterMap.mpr ⟨(name, line), OrderedMap.get?_eq_some_iff.mp hline, ?_⟩
  simp [hkind, hsecret]

theorem hidden_of_quickDeclaration {key : String} {entries : List (Yaml × Yaml)} {declaration : ModelDeclaration}
    (h : quickDeclaration key entries = .ok declaration) :
    declaration.hidden = secretColumns declaration.columns ∧ declaration.fillable = none := by
  have hrest := (quick_of_quickDeclaration h).1.rest
  obtain ⟨read, _, rfl⟩ := map_eq_ok.mp h
  exact ⟨rfl, by rw [hrest]; rfl⟩

/-- What a declaration hides is hidden, and cannot be filled unless the declaration says what can. -/
theorem hides_of_declaration (c : Course settings schema) {k : String} {m : Model} {y : Yaml} {declaration : ModelDeclaration}
    (hm : c.complete.models.get? k = some m) (hy : schema.models.get? k = some y)
    (hread : modelDeclaration k y = .ok declaration) (hfillable : declaration.fillable = none) :
    ∀ name ∈ declaration.hidden, name ∈ m.hidden ∧ name ∉ m.fillable := by
  obtain ⟨declaration', m₁, hdeclared, _, hattributes, _⟩ := exists_attributes c.modelAttributes hm
  rw [← (edited_modelAttributes c.modelAttributes).declarations] at hdeclared
  obtain ⟨y', hy', hread'⟩ := c.founded.read.declaration k declaration' hdeclared
  obtain rfl := Option.some_inj.mp (hy.symm.trans hy')
  obtain rfl := Except.ok.inj (hread.symm.trans hread')
  intro name hmem
  rw [hattributes]
  refine ⟨List.mem_eraseDups.mpr hmem, fun hfilled => ?_⟩
  change name ∈ (declaration.fillable.getD (defaultFillable m₁ declaration.hidden)).eraseDups at hfilled
  rw [hfillable, List.mem_eraseDups] at hfilled
  simpa [hmem] using (List.mem_filter.mp hfilled).2

/-! ## Models -/

/-- The column of a line is kept secret: it is hidden and not fillable, and the factory has a field for it only if the declaration
gives one. -/
structure KeptSecret (s : Resolved) (declaration : ModelDeclaration) (k n : String) (m : Model) (c : Column) : Prop where
  name : c.name = (Column.shorthandName? n).getD n
  hidden : c.name ∈ m.hidden
  fillable : c.name ∉ m.fillable
  guessed : c.name ∉ (guessedFields m).map Prod.fst
  factory : ∀ f, s.artifacts.factories.get? k = some f → c.name ∈ f.fields.keys →
    c.name ∈ (declaredFields declaration).map Prod.fst

/-- Every column line of a quick model has a column that is kept secret if its name is secret. -/
theorem secrets_kept (h : resolve settings schema = .ok s) {k : String} {m : Model} {entries : List (Yaml × Yaml)}
    (hm : s.models.get? k = some m) (hy : schema.models.get? k = some (.map entries))
    (hquick : Yaml.entry? entries "columns" = none) : ∃ declaration, modelDeclaration k (.map entries) = .ok declaration ∧
      ∀ n line, declaration.columns.get? n = some line → DeclaredRelation.kindOf? (Call.ofLine line) = none → IsSecret n →
        ∃ c, m.columns.get? n = some c ∧ KeptSecret s declaration k n m c := by
  obtain ⟨c, hmodels, _⟩ := exists_course_of_resolve h
  have hm' : c.complete.models.get? k = some m := hmodels ▸ hm
  obtain ⟨y, declaration, m₀, hy', hread, _, _, hlaid, hkept, _⟩ := c.exists_kept hm'
  obtain rfl := Option.some_inj.mp (hy.symm.trans hy')
  obtain ⟨hhidden, hfillable⟩ := hidden_of_quickDeclaration (quickDeclaration_of_modelDeclaration hquick hread)
  refine ⟨declaration, hread, fun n line hline hkind hsecret => ?_⟩
  have hsecret := isSecret_iff.mpr hsecret
  have hcolumn₀ := Slots.get?_eq_some_iff.mpr (hlaid.slot?_column hline hkind)
  -- The one column that can be gone in the end is the `id` of a pivot model, whose name is no secret.
  rcases hkept.column hcolumn₀ with ⟨column, hcolumn, hsame⟩ | ⟨rfl, _⟩
  · have hname : column.name = (Column.shorthandName? n).getD n :=
      (Column.name_eq_of_untagged hsame).trans (name_of_isSecret hsecret _)
    have hmem : column.name ∈ declaration.hidden := by
      rw [hname, hhidden]
      exact mem_secretColumns hline hkind hsecret
    obtain ⟨hhides, hnot⟩ := hides_of_declaration c hm' hy hread hfillable column.name hmem
    have hguessed : column.name ∉ (guessedFields m).map Prod.fst := fun hg => hnot (mem_fillable_of_guessedFields hg)
    refine ⟨column, hcolumn, hname, hhides, hnot, hguessed, fun f hf hfield => ?_⟩
    obtain ⟨y, given, hy', hgiven, rfl⟩ := factory_of_resolve h hm hf
    obtain rfl := Option.some_inj.mp (hy.symm.trans hy')
    obtain rfl := Except.ok.inj (hread.symm.trans hgiven)
    exact (mem_fields_factoryOf.mp hfield).resolve_left hguessed
  · exact absurd rfl (shorthandName?_of_isSecret hsecret).1

/-- The lines of a quick model with secrets: among them a token, and the key column of a relation. -/
def vault : List (Yaml × Yaml) :=
  [(.str "name", .str "string"), (.str "userPassword", .str "string"), (.str "rememberToken", .null),
   (.str "secret_id", .str "unsignedBigInteger"), (.str "secret", .str "belongsTo"),
   (.str "factory", .map [(.str "fields", .map [(.str "userPassword", .str "bcrypt('x')")])])]

def vaults : SchemaDeclaration where
  rootNamespace := none
  models := .ofList [("Vault", .map vault), ("Secret", declaredByLines [("value", "string")])]
  migrations := .empty

theorem vaults_secrets_kept : ∃ s m f declaration token key, resolve .standard vaults = .ok s ∧
    s.models.get? "Vault" = some m ∧ s.artifacts.factories.get? "Vault" = some f ∧
    modelDeclaration "Vault" (.map vault) = .ok declaration ∧
    m.columns.get? "rememberToken" = some token ∧ KeptSecret s declaration "Vault" "rememberToken" m token ∧
    m.columns.get? "secret_id" = some key ∧ KeptSecret s declaration "Vault" "secret_id" m key ∧
    key.relation = some "secret" ∧ m.hidden = ["userPassword", "remember_token", "secret_id"] ∧ m.fillable = ["name"] ∧
    f.fields.keys = ["name", "userPassword"] := by
  have hvaults : (resolve .standard vaults).toOption.any (fun s => (s.models.get? "Vault").any fun m =>
      (s.artifacts.factories.get? "Vault").any (·.fields.keys = ["name", "userPassword"]) = true ∧
      (m.columns.get? "secret_id").any (·.relation = some "secret") = true ∧
      m.hidden = ["userPassword", "remember_token", "secret_id"] ∧ m.fillable = ["name"]) = true := by decide +kernel
  have hlines : (modelDeclaration "Vault" (.map vault)).toOption.any (fun declaration =>
      declaration.columns.get? "rememberToken" = some none ∧
      declaration.columns.get? "secret_id" = some (some "unsignedBigInteger")) = true := by decide +kernel
  obtain ⟨s, h, hs⟩ := exists_resolved_of_any hvaults
  obtain ⟨m, hm, hp⟩ := exists_of_any hs
  obtain ⟨hfactory, hkey, hhidden, hfillable⟩ := of_decide_eq_true hp
  obtain ⟨f, hf, hfields⟩ := exists_of_any hfactory
  obtain ⟨key, hkey, hrelation⟩ := exists_of_any hkey
  obtain ⟨declaration, hread, hkept⟩ := secrets_kept h hm rfl rfl
  rw [hread] at hlines
  obtain ⟨htokenLine, hkeyLine⟩ := of_decide_eq_true hlines
  obtain ⟨token, htoken, htokenKept⟩ := hkept "rememberToken" _ htokenLine (by decide) (isSecret_iff.mp (by decide +kernel))
  obtain ⟨key', hkey', hkeyKept⟩ := hkept "secret_id" _ hkeyLine (by decide +kernel) (isSecret_iff.mp (by decide +kernel))
  obtain rfl := Option.some_inj.mp (hkey.symm.trans hkey')
  exact ⟨s, m, f, declaration, token, key, h, hm, hf, hread, htoken, htokenKept, hkey, hkeyKept, of_decide_eq_true hrelation,
    hhidden, hfillable, of_decide_eq_true hfields⟩

end Schemata.Resolved
