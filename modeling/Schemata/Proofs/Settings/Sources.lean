import Schemata.Proofs.OrderedMap
import Schemata.Proofs.Result
import Schemata.Proofs.Yaml.Reading
import Schemata.Settings.Basic

/-!
# Where settings come from

Settings that are accepted hold what a file or the environment supplies, and the defaults elsewhere, and say which. The
namespaces that are made of them obey the rule for namespaces.
-/

namespace Schemata

open Yaml

/-! ## Namespaces -/

namespace Settings

theorem isNamespace_join {a b : String} (ha : isNamespace a = true) (hb : isNamespace b = true) :
    isNamespace (a ++ "\\" ++ b) = true := by
  have hchars : (a ++ "\\" ++ b).toList = a.toList ++ '\\' :: b.toList := by simp
  unfold isNamespace at *
  rw [hchars, List.splitOn_append_cons_self, List.all_append, ha, hb, Bool.and_self]

theorem checkNamespace_eq_ok {mayBeEmpty : Bool} {field value : String} :
    checkNamespace mayBeEmpty field value = .ok () ↔ isNamespace value = true ∨ mayBeEmpty = true ∧ value = "" := by
  unfold checkNamespace
  split
  · rename_i h
    obtain rfl : value = "" := String.isEmpty_iff.mp h
    have hempty : isNamespace "" = false := by decide
    cases mayBeEmpty <;> simp [hempty, throw_ne_ok, pure_eq_ok]
  · rename_i h
    have hne : value ≠ "" := fun he => h (String.isEmpty_iff.mpr he)
    split
    · rename_i hn
      simp [hn, pure_eq_ok]
    · rename_i hn
      simp [hn, hne, throw_ne_ok]

/-- The namespaces of what is generated. -/
def namespaces (s : Settings) : List String :=
  [s.modelNamespace, s.observerNamespace, s.scopeNamespace, s.castNamespace, s.traitNamespace]

variable {s : Settings}

theorem validate_eq_ok : s.validate = .ok () ↔
    checkNamespace false Setting.root.field (s.value .root) = .ok () ∧
      checkNamespace true Setting.modelsNamespace.field (s.value .modelsNamespace) = .ok () ∧
      ∀ key ∉ [Setting.root, .modelsNamespace], checkPath key.field (s.value key) = .ok () := by
  unfold validate
  rw [forM_eq_ok]
  constructor
  · intro h
    refine ⟨h .root (Setting.mem_all _), h .modelsNamespace (Setting.mem_all _), fun key hkey => ?_⟩
    have := h key (Setting.mem_all _)
    cases key <;> first | exact this | simp at hkey
  · rintro ⟨hroot, hmodels, hpaths⟩ key _
    cases key with
    | root => exact hroot
    | modelsNamespace => exact hmodels
    | _ => exact hpaths _ (by decide)

theorem isNamespace_below {child : String} (hroot : isNamespace (s.value .root) = true)
    (hchild : isNamespace child = true ∨ child = "") : isNamespace (s.below child) = true := by
  unfold below
  split
  · exact hroot
  · rename_i h
    rcases hchild with hchild | rfl
    · exact isNamespace_join hroot hchild
    · exact absurd rfl h

/-- Settings that are valid make valid namespaces. -/
theorem accepts_namespaces (h : s.validate = .ok ()) :
    ∀ name ∈ s.namespaces, ∀ field, checkNamespace false field name = .ok () := by
  obtain ⟨hroot, hmodels, _⟩ := validate_eq_ok.mp h
  have hroot : isNamespace (s.value .root) = true := (checkNamespace_eq_ok.mp hroot).resolve_right nofun
  have hmodel : isNamespace s.modelNamespace = true :=
    isNamespace_below hroot ((checkNamespace_eq_ok.mp hmodels).imp_right And.right)
  have hscope : s.scopeNamespace = s.modelNamespace ++ "\\" ++ "Scopes" := by
    rw [scopeNamespace, String.append_assoc]
    rfl
  refine fun name hname field => checkNamespace_eq_ok.mpr (.inl ?_)
  revert name
  simp only [namespaces, List.forall_mem_cons]
  refine ⟨hmodel, isNamespace_below hroot (.inl (by decide)), ?_, isNamespace_below hroot (.inl (by decide)),
    isNamespace_below hroot (.inl (by decide)), nofun⟩
  rw [hscope]
  exact isNamespace_join hmodel (by decide)

/-! ## The ten settings -/

/-- A setting with its name in a file, its environment variable and its default. -/
structure Row where
  setting : Setting
  field : String
  variableName : String
  default : String
  deriving DecidableEq

def rows : List Row := [
  ⟨.root, "namespace", "DRAFTSMAN_NAMESPACE", "App"⟩,
  ⟨.modelsNamespace, "models_namespace", "DRAFTSMAN_MODELS_NAMESPACE", "Models"⟩,
  ⟨.modelsPath, "models_path", "DRAFTSMAN_MODELS_PATH", "app/Models"⟩,
  ⟨.migrationsPath, "migrations_path", "DRAFTSMAN_MIGRATIONS_PATH", "database/migrations"⟩,
  ⟨.factoriesPath, "factories_path", "DRAFTSMAN_FACTORIES_PATH", "database/factories"⟩,
  ⟨.seedersPath, "seeders_path", "DRAFTSMAN_SEEDERS_PATH", "database/seeders"⟩,
  ⟨.observersPath, "observers_path", "DRAFTSMAN_OBSERVERS_PATH", "app/Observers"⟩,
  ⟨.scopesPath, "scopes_path", "DRAFTSMAN_SCOPES_PATH", "app/Models/Scopes"⟩,
  ⟨.castsPath, "casts_path", "DRAFTSMAN_CASTS_PATH", "app/Casts"⟩,
  ⟨.traitsPath, "traits_path", "DRAFTSMAN_TRAITS_PATH", "app/Traits"⟩]

theorem exists_row (key : Setting) : ∃ row ∈ rows, row.setting = key := by
  cases key <;> decide

/-- Each setting goes by the names of its row. -/
theorem eq_of_mem_rows : ∀ row ∈ rows, row.setting.field = row.field ∧ row.setting.variableName = row.variableName ∧
    row.setting.default = row.default := by
  decide

/-! ## What is supplied -/

/-- The settings hold the values that are supplied, with the origin that these have, and the defaults elsewhere. The
namespaces that are made of them are accepted. -/
structure Follows (s : Settings) (supplied : Row → String → Prop) (origin : Row → Origin) : Prop where
  given {row : Row} {value : String} : row ∈ rows → supplied row value →
    s.value row.setting = value ∧ s.origin row.setting = origin row
  absent {row : Row} : row ∈ rows → (∀ value, ¬supplied row value) →
    s.value row.setting = row.default ∧ s.origin row.setting = .default row.default
  accepted : ∀ name ∈ s.namespaces, ∀ field, checkNamespace false field name = .ok ()

theorem validated_eq_ok {s' : Settings} : s.validated = .ok s' ↔ s.validate = .ok () ∧ s = s' := by
  unfold validated
  rw [bind_eq_ok]
  exact ⟨fun ⟨_, hv, he⟩ => ⟨hv, pure_eq_ok.mp he⟩, fun ⟨hv, he⟩ => ⟨(), hv, pure_eq_ok.mpr he⟩⟩

theorem follows_of_supply {values : Setting → Option String} {origins : Setting → Origin} {supplied : Row → String → Prop}
    {origin : Row → Origin} (hvalues : ∀ row ∈ rows, ∀ value, values row.setting = some value ↔ supplied row value)
    (horigins : ∀ row ∈ rows, origins row.setting = origin row) (h : (standard.supply values origins).validated = .ok s) :
    Follows s supplied origin := by
  obtain ⟨hvalid, rfl⟩ := validated_eq_ok.mp h
  refine ⟨fun {row value} hrow hs => ?_, fun {row} hrow hs => ?_, accepts_namespaces hvalid⟩
  · have hvalue := (hvalues row hrow value).mpr hs
    exact ⟨by simp [supply, hvalue], by simp [supply, hvalue, horigins row hrow]⟩
  · have hnone : values row.setting = none :=
      Option.eq_none_iff_forall_ne_some.mpr fun value hv => hs value ((hvalues row hrow value).mp hv)
    obtain ⟨_, _, hdefault⟩ := eq_of_mem_rows row hrow
    exact ⟨by simp [supply, hnone, standard, hdefault], by simp [supply, hnone, standard, hdefault]⟩

/-! ## Files -/

/-- The document of a text has an entry of a name at its root, with a text that is not null. -/
def SuppliedBy (text field value : String) : Prop :=
  ∃ (d : Document) (tag : Option Tag) (entries : List (Node × Node)) (k v : Node),
    Yaml.document? text = some (some d) ∧ d.followed? d.root = some (.map tag entries) ∧ (k, v) ∈ entries ∧
    (∃ tag plain, d.followed? k = some (.scalar tag field plain)) ∧
    ∃ tag plain, d.followed? v = some (.scalar tag value plain) ∧ isAbsent? tag value plain = some false

/-- What is read of an entry of a settings file: the setting, and its text if that is not null. -/
def ReadAs (d : Document) (entry : Node × Node) (pair : Setting × Option String) : Prop :=
  (∃ tag plain, d.followed? entry.1 = some (.scalar tag pair.1.field plain)) ∧
    ∃ tag text plain absent, d.followed? entry.2 = some (.scalar tag text plain) ∧ isAbsent? tag text plain = some absent ∧
      pair.2 = if absent then none else some text

theorem field_of_ofField? {name : String} {key : Setting} (h : Setting.ofField? name = some key) : key.field = name := by
  simpa using List.find?_some h

theorem field_injective {key key' : Setting} (h : key.field = key'.field) : key = key' := by
  have hall : ∀ a ∈ Setting.all, ∀ b ∈ Setting.all, a.field = b.field → a = b := by decide
  exact hall key (Setting.mem_all key) key' (Setting.mem_all key') h

variable {d : Document}

theorem readFields_eq_some {n n' : Nat} {values : Setting → Option String}
    (h : (fileValues?.readFields d).run n = some (values, n')) :
    ∃ entries pairs, ((∃ tag, d.followed? d.root = some (.map tag entries)) ∨
        entries = [] ∧ ∃ tag text plain, d.followed? d.root = some (.scalar tag text plain)) ∧
      List.Forall₂ (ReadAs d) entries pairs ∧ (pairs.map Prod.fst).Nodup ∧ values = fun key => (pairs.lookup key).join := by
  obtain ⟨entries, _, hentries, h⟩ := run_bind_eq_some.mp h
  obtain ⟨pairs, _, hpairs, h⟩ := run_bind_eq_some.mp h
  split at h
  · rename_i hnodup
    obtain ⟨rfl, _⟩ := run_pure_eq_some.mp h
    refine ⟨entries, pairs, Document.followed?_of_entries hentries, forall₂_of_run_mapM ?_ hpairs, hnodup, rfl⟩
    rintro ⟨k, v⟩ _ pair _ h
    obtain ⟨name, _, hname, h⟩ := run_bind_eq_some.mp h
    split at h
    · rename_i key hkey
      obtain ⟨value, _, hvalue, h⟩ := run_bind_eq_some.mp h
      obtain ⟨rfl, _⟩ := run_pure_eq_some.mp h
      exact ⟨field_of_ofField? hkey ▸ Document.followed?_of_text hname, Document.followed?_of_textOrNull hvalue⟩
    · exact absurd h run_failure_ne_some
  · exact absurd h run_failure_ne_some

/-- A settings file supplies what its text does. -/
theorem fileValues?_eq_some {text : String} {values : Setting → Option String} (h : fileValues? text = some values)
    (key : Setting) (value : String) : values key = some value ↔ SuppliedBy text key.field value := by
  unfold fileValues? at h
  obtain ⟨d?, hd, h⟩ := Option.bind_eq_some_iff.mp h
  cases d? with
  | none =>
    obtain rfl := Option.some_inj.mp h
    refine iff_of_false nofun ?_
    rintro ⟨d, _, _, _, _, hd', _⟩
    exact absurd (hd.symm.trans hd') nofun
  | some d =>
    obtain ⟨⟨_, n'⟩, hrun, rfl⟩ := Option.map_eq_some_iff.mp h
    obtain ⟨entries, pairs, hroot, hpairs, hnodup, rfl⟩ := readFields_eq_some hrun
    have hmem : (pairs.lookup key).join = some value ↔ (key, some value) ∈ pairs :=
      Option.join_eq_some_iff.trans (OrderedMap.lookup_eq_some_iff_mem hnodup)
    refine hmem.trans ⟨fun hm => ?_, ?_⟩
    · obtain ⟨⟨k, v⟩, hentry, hk, tag, t, plain, absent, hv, habsent, hvalue⟩ := mem_of_forall₂ hpairs hm
      have hwritten : absent = false ∧ t = value := by cases absent <;> simp_all
      obtain ⟨rfl, rfl⟩ := hwritten
      rcases hroot with ⟨rootTag, hroot⟩ | ⟨rfl, _⟩
      · exact ⟨d, rootTag, entries, k, v, hd, hroot, hentry, hk, tag, plain, hv, habsent⟩
      · exact absurd hentry List.not_mem_nil
    · rintro ⟨d', rootTag, entries', k, v, hd', hroot', hentry, ⟨tag, plain, hk⟩, tag', plain', hv, habsent⟩
      obtain rfl : d = d' := Option.some_inj.mp (Option.some_inj.mp (hd.symm.trans hd'))
      obtain rfl : entries = entries' := by
        rcases hroot with ⟨_, hroot⟩ | ⟨_, _, _, _, hroot⟩
        · exact (Node.map.inj (Option.some_inj.mp (hroot.symm.trans hroot'))).2
        · exact absurd (hroot.symm.trans hroot') nofun
      obtain ⟨⟨key', value'⟩, hpair, ⟨_, _, hk'⟩, _, _, _, absent, hv', habsent', hvalue⟩ := exists_mem_of_forall₂ hpairs hentry
      obtain ⟨_, hfield, _⟩ := Node.scalar.inj (Option.some_inj.mp (hk'.symm.trans hk))
      obtain ⟨rfl, rfl, rfl⟩ := Node.scalar.inj (Option.some_inj.mp (hv'.symm.trans hv))
      obtain rfl : absent = false := Option.some_inj.mp (habsent'.symm.trans habsent)
      obtain rfl : key' = key := field_injective hfield
      obtain rfl := hvalue
      exact hpair

/-! ## Environments -/

/-- The last assignment of a variable gives it this text. -/
def Assigned (environment : List (String × Option String)) (name value : String) : Prop :=
  ∃ before after, environment = before ++ (name, some value) :: after ∧ ∀ pair ∈ after, pair.1 ≠ name

theorem lookup_reverse_eq_some {environment : List (String × Option String)} {name value : String} :
    (environment.reverse.lookup name).join = some value ↔ Assigned environment name value := by
  rw [Option.join_eq_some_iff, List.lookup_eq_some_iff]
  constructor
  · rintro ⟨after, before, hreverse, hafter⟩
    refine ⟨before.reverse, after.reverse, ?_, fun pair hpair => ?_⟩
    · rw [← List.reverse_reverse environment, hreverse]
      simp
    · exact (bne_iff_ne.mp (hafter pair (List.mem_reverse.mp hpair))).symm
  · rintro ⟨before, after, rfl, hafter⟩
    refine ⟨after.reverse, before.reverse, by simp, fun pair hpair => ?_⟩
    exact bne_iff_ne.mpr (hafter pair (List.mem_reverse.mp hpair)).symm

theorem follows_of_ofYaml {text path : String} (h : ofYaml text path = .ok s) :
    Follows s (fun row => SuppliedBy text row.field) fun _ => .file path := by
  unfold ofYaml at h
  split at h
  · rename_i values hvalues
    refine follows_of_supply (fun row hrow value => ?_) (fun _ _ => rfl) h
    rw [fileValues?_eq_some hvalues, (eq_of_mem_rows row hrow).1]
  · exact absurd h throw_ne_ok

theorem follows_of_ofEnvironment {environment : List (String × Option String)} (h : ofEnvironment environment = .ok s) :
    Follows s (fun row => Assigned environment row.variableName) fun row => .environment row.variableName := by
  obtain ⟨_, _, h⟩ := bind_eq_ok.mp h
  refine follows_of_supply (fun row hrow value => ?_) (fun row hrow => ?_) h
  · rw [lookup_reverse_eq_some, (eq_of_mem_rows row hrow).2.1]
  · rw [(eq_of_mem_rows row hrow).2.1]

/-- Settings that a file or the environment makes hold what these supply and the defaults elsewhere, tell which, and make
valid namespaces. So do settings under the namespace of a schema, if they are valid. -/
theorem follows_sources (s : Settings) :
    (∀ key, ∃ row ∈ rows, row.setting = key) ∧
      (∀ text path, ofYaml text path = .ok s → Follows s (fun row => SuppliedBy text row.field) fun _ => .file path) ∧
      (∀ environment, ofEnvironment environment = .ok s →
        Follows s (fun row => Assigned environment row.variableName) fun row => .environment row.variableName) ∧
      ∀ value, (s.withNamespace value).validate = .ok () →
        ∀ name ∈ (s.withNamespace value).namespaces, ∀ field, checkNamespace false field name = .ok () :=
  ⟨exists_row, fun _ _ => follows_of_ofYaml, fun _ => follows_of_ofEnvironment, fun _ => accepts_namespaces⟩

/-- A file that names the root and one path and leaves another null, two assignments of one variable, and the namespace of a
schema. -/
theorem follows_sources_shop :
    (∃ s, ofYaml "namespace: Shop\ncasts_path: ~\ntraits_path: app/Concerns\n" "draft.yaml" = .ok s ∧
      (s.value .root = "Shop" ∧ s.origin .root = .file "draft.yaml") ∧
      (s.value .traitsPath = "app/Concerns" ∧ s.origin .traitsPath = .file "draft.yaml") ∧
      (s.value .castsPath = "app/Casts" ∧ s.origin .castsPath = .default "app/Casts") ∧
      ∀ name ∈ s.namespaces, checkNamespace false "namespace" name = .ok ()) ∧
    (∃ s, ofEnvironment [("DRAFTSMAN_NAMESPACE", some "shop"), ("DRAFTSMAN_CASTS_PATH", some "app/Values"),
        ("DRAFTSMAN_NAMESPACE", some "Shop")] = .ok s ∧
      (s.value .root = "Shop" ∧ s.origin .root = .environment "DRAFTSMAN_NAMESPACE") ∧
      s.value .castsPath = "app/Values" ∧ s.origin .castsPath = .environment "DRAFTSMAN_CASTS_PATH") ∧
    ∀ name ∈ (standard.withNamespace "Acme\\Blog").namespaces, checkNamespace false "namespace" name = .ok () := by
  have hroot : ⟨.root, "namespace", "DRAFTSMAN_NAMESPACE", "App"⟩ ∈ rows := by decide
  have hcasts : ⟨.castsPath, "casts_path", "DRAFTSMAN_CASTS_PATH", "app/Casts"⟩ ∈ rows := by decide
  have htraits : ⟨.traitsPath, "traits_path", "DRAFTSMAN_TRAITS_PATH", "app/Traits"⟩ ∈ rows := by decide
  refine ⟨?_, ?_, ?_⟩
  · obtain ⟨values, hvalues, hread⟩ := exists_of_any
      (o := fileValues? "namespace: Shop\ncasts_path: ~\ntraits_path: app/Concerns\n")
      (p := fun values => values .root == some "Shop" ∧ values .traitsPath == some "app/Concerns" ∧
        values .castsPath == none) (by decide +kernel)
    obtain ⟨hshop, hconcerns, hnone⟩ := of_decide_eq_true hread
    have hsupplied := fileValues?_eq_some hvalues
    obtain ⟨s, hs⟩ := Option.isSome_iff_exists.mp
      (show (ofYaml "namespace: Shop\ncasts_path: ~\ntraits_path: app/Concerns\n" "draft.yaml").toOption.isSome = true by
        decide +kernel)
    obtain ⟨_, hfile, _⟩ := follows_sources s
    have h := hfile _ _ (ok_of_toOption hs)
    refine ⟨s, ok_of_toOption hs, h.given hroot ((hsupplied ..).mp (beq_iff_eq.mp hshop)),
      h.given htraits ((hsupplied ..).mp (beq_iff_eq.mp hconcerns)), h.absent hcasts ?_, fun name hname => h.accepted name hname _⟩
    intro value hv
    exact absurd ((beq_iff_eq.mp hnone).symm.trans ((hsupplied .castsPath value).mpr hv)) nofun
  · obtain ⟨s, hs⟩ := Option.isSome_iff_exists.mp
      (show (ofEnvironment [("DRAFTSMAN_NAMESPACE", some "shop"), ("DRAFTSMAN_CASTS_PATH", some "app/Values"),
        ("DRAFTSMAN_NAMESPACE", some "Shop")]).toOption.isSome = true by decide +kernel)
    obtain ⟨_, _, henvironment, _⟩ := follows_sources s
    have h := henvironment _ (ok_of_toOption hs)
    exact ⟨s, ok_of_toOption hs, h.given hroot ⟨[_, _], [], rfl, nofun⟩, h.given hcasts ⟨[_], [_], rfl, by simp⟩⟩
  · have hvalid : (standard.withNamespace "Acme\\Blog").validate.toOption.isSome = true := by decide +kernel
    obtain ⟨_, hv⟩ := Option.isSome_iff_exists.mp hvalid
    obtain ⟨_, _, _, hschema⟩ := follows_sources standard
    exact fun name hname => hschema _ (ok_of_toOption hv) name hname _

end Settings

end Schemata
