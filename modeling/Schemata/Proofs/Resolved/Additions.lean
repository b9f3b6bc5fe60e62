import Schemata.Proofs.Resolution.BesideTables
import Schemata.Proofs.Resolution.KeyColumns
import Schemata.Proofs.Resolved.Basic

/-!
# Additions to a schema

A schema whose relations name their models by keys resolves as before when a model is added to which none of them can refer. What
is added to the result is what the model makes of itself.
-/

namespace Schemata

namespace SchemaDeclaration

/-- A schema with another model at its end. -/
def withModel (schema : SchemaDeclaration) (key : String) (value : Yaml) : SchemaDeclaration :=
  { schema with models := schema.models.insert key value }

/-- The schema that has one model and nothing else. -/
def only (schema : SchemaDeclaration) (key : String) (value : Yaml) : SchemaDeclaration :=
  ⟨schema.rootNamespace, .ofList [(key, value)], .empty⟩

end SchemaDeclaration

namespace Resolved

open Resolution

variable {settings : Settings} {schema : SchemaDeclaration} {s t : Resolved}

/-- A resolved schema with the models of another after its own, their tables in one place between its own, and their further files. -/
structure Extends (s' s t : Resolved) : Prop where
  namespaceName : s'.namespaceName = s.namespaceName
  models : s'.models.Joins s.models t.models
  migrations : s'.migrations.Encloses s.migrations t.migrations
  artifacts : s'.artifacts.Joins s.artifacts t.artifacts

/-- A model without relation lines may be added to a schema whose relation lines name their models by keys, if its key is new, its
class differs from all others in more than case, and its table is that of no other model and of no other definition. Everything
that was there stays, and the model, its table and its further files are added as they are without the others. -/
theorem resolve_withModel {key : String} {value : Yaml} (h : resolve settings schema = .ok s)
    (hexact : ∀ l, DeclaredBy schema l → l.NamesKeys schema.models.keys) (hnew : key ∉ schema.models.keys)
    (hlines : ∀ declaration, modelDeclaration key value = .ok declaration → relationLines declaration = [])
    (hown : resolve settings (schema.only key value) = .ok t)
    (hclass : ∀ m ∈ s.models.values, ∀ n ∈ t.models.values, Text.lower m.className ≠ Text.lower n.className)
    (htable : ∀ n ∈ t.models.values, (∀ m ∈ s.models.values, m.table ≠ n.table) ∧ n.table ∉ s.migrations.keys) :
    ∃ s' m, resolve settings (schema.withModel key value) = .ok s' ∧ s'.Extends s t ∧ t.models.entries = [(key, m)] ∧
      t.migrations.entries = if m.migration then [(m.table, modelMigration m)] else [] := by
  obtain ⟨d, hd, rfl⟩ := completes_of_resolve h
  obtain ⟨a, ha, rfl⟩ := completes_of_resolve hown
  have honly : (schema.only key value).models.entries = [(key, value)] := OrderedMap.entries_ofList (by simp)
  have hboth : (schema.withModel key value).models.Joins schema.models (schema.only key value).models :=
    (OrderedMap.entries_insert hnew).trans (by rw [honly])
  obtain ⟨hread, hkeys⟩ := readFrom_of_completes hd
  obtain ⟨hread', hkeys'⟩ := readFrom_of_completes ha
  have hdeclares : ∀ l, d.Declares l → l.NamesKeys d.models.keys := by
    rintro l ⟨declaration, text, hs, htext, hp⟩
    obtain ⟨y, hy, hy'⟩ := hread.declaration l.model declaration hs
    exact hkeys ▸ hexact l ⟨y, declaration, text, hy, hy', htext, hp⟩
  have hnoLines : ∀ k, a.relationLines k = [] := by
    intro k
    unfold Draft.relationLines
    cases hs : a.declarations.get? k with
    | none => rfl
    | some declaration =>
      obtain ⟨y, hy, hy'⟩ := hread'.declaration k declaration hs
      rw [OrderedMap.get?_eq_some_iff, honly, List.mem_singleton] at hy
      obtain ⟨rfl, rfl⟩ := Prod.mk.inj hy
      exact hlines declaration hy'
  obtain ⟨b, hb, hbeside, hjoins, hentries⟩ := completes_beside hboth rfl rfl hd ha
    (fun m hm n hn => ⟨hclass m hm n hn, (htable n hn).1 m hm⟩) hdeclares hnoLines fun n hn => (htable n hn).2
  have hone : a.models.keys = [key] := by
    rw [hkeys', OrderedMap.keys, honly]
    rfl
  obtain ⟨⟨k, m⟩, hm⟩ : ∃ x, a.models.entries = [x] := List.length_eq_one_iff.mp (by
    rw [← List.length_map (f := Prod.fst)]
    exact congrArg List.length hone)
  obtain rfl : k = key := by
    unfold OrderedMap.keys at hone
    rw [hm] at hone
    exact List.singleton_inj.mp hone
  have hvalues : a.models.values = [m] := congrArg (List.map Prod.snd) hm
  have hvalid := validate_of_resolve_ok h
  refine ⟨ofDraft b, m, ?_, ⟨?_, hbeside.models, hbeside.migrations, hjoins⟩, hm, ?_⟩
  · exact resolve_of_completes hvalid hb
  · exact congrArg (·.value .root) hbeside.settings
  · change a.migrations.entries = _
    rw [hentries, hvalues]
    cases hmigration : m.migration <;> simp [hmigration]

/-- What holds of all relation lines of a schema may be checked by reading each of its models. -/
theorem forall_declaredBy_of_all {p : DeclaredRelation → Bool} (h : (schema.models.entries.all fun (k, y) =>
    (modelDeclaration k y).toOption.all fun s => s.columns.entries.all fun (n, line) => line.all fun text =>
      (DeclaredRelation.parse k n (.parse text)).toOption.all p) = true) : ∀ l, DeclaredBy schema l → p l = true := by
  rintro l ⟨y, declaration, text, hy, hread, htext, hp⟩
  have hmodel := List.all_eq_true.mp h (l.model, y) (OrderedMap.get?_eq_some_iff.mp hy)
  simp only [hread, Except.toOption, Option.all_some] at hmodel
  have hline := List.all_eq_true.mp hmodel (l.name, some text) (OrderedMap.get?_eq_some_iff.mp htext)
  simpa only [hp, Except.toOption, Option.all_some] using hline

/-- A schema with relations of most kinds, each of which names its models by keys. -/
def studio : SchemaDeclaration where
  rootNamespace := some "Studio"
  models := .ofList [
    ("Artist", declaredByLines [("name", "string"), ("works", "hasMany:Work"), ("sales", "hasManyThrough:Sale,Work"),
      ("circles", "belongsToMany:Circle using:Admin/Membership"), ("notes", "morphMany:Note")]),
    ("Work", declaredByLines [("artist", "belongsTo:Artist"), ("title", "string"), ("labels", "belongsToMany:Label")]),
    ("Sale", declaredByLines [("work", "belongsTo:Work"), ("price", "integer")]),
    ("Circle", declaredByLines [("name", "string")]),
    ("Admin/Membership", declaredByLines [("artist", "belongsTo:Artist"), ("circle", "belongsTo:Circle")]),
    ("Label", declaredByLines [("text", "string")]),
    ("Note", declaredByLines [("subject", "morphTo"), ("body", "text")])]
  migrations := .ofList [("sessions", declaredByLines [("id", "string primary"), ("payload", "text")])]

/-- A model that the studio does not know. -/
def sponsor : Yaml :=
  declaredByLines [("name", "string unique"), ("since", "date")]

theorem studio_resolve_withModel : ∃ s t s' m, resolve .standard studio = .ok s ∧
    resolve .standard (studio.only "Sponsor" sponsor) = .ok t ∧ resolve .standard (studio.withModel "Sponsor" sponsor) = .ok s' ∧
    s'.Extends s t ∧ t.models.entries = [("Sponsor", m)] ∧ t.migrations.entries = [("sponsors", modelMigration m)] ∧
    s.migrations.keys =
      ["sessions", "artists", "works", "sales", "circles", "memberships", "labels", "notes", "label_work"] := by
  have hstudio : (resolve .standard studio).toOption.any (fun s =>
      s.migrations.keys = ["sessions", "artists", "works", "sales", "circles", "memberships", "labels", "notes", "label_work"] ∧
      s.models.values.map (fun m => Text.lower m.className) =
        ["artist", "work", "sale", "circle", "membership", "label", "note"] ∧
      s.models.values.map Model.table = ["artists", "works", "sales", "circles", "memberships", "labels", "notes"]) = true := by
    decide +kernel
  obtain ⟨s, h, hs⟩ := exists_resolved_of_any hstudio
  obtain ⟨htables, hclasses, hown⟩ := of_decide_eq_true hs
  have hsponsor : (resolve .standard (studio.only "Sponsor" sponsor)).toOption.any (fun t =>
      t.models.values.map (fun m => (Text.lower m.className, m.table, m.migration)) = [("sponsor", "sponsors", true)]) = true := by
    decide +kernel
  obtain ⟨t, ht, hone⟩ := exists_resolved_of_any hsponsor
  have hexact : ∀ l, DeclaredBy studio l → l.NamesKeys studio.models.keys := fun l hl =>
    of_decide_eq_true (forall_declaredBy_of_all (p := fun l => l.NamesKeys studio.models.keys) (by decide +kernel) l hl)
  have hlines : ∀ declaration, modelDeclaration "Sponsor" sponsor = .ok declaration → relationLines declaration = [] := by
    have hall : (modelDeclaration "Sponsor" sponsor).toOption.all (fun declaration => relationLines declaration = []) = true := by
      decide +kernel
    intro declaration hd
    rw [hd] at hall
    exact of_decide_eq_true hall
  have hshape : ∀ n ∈ t.models.values, (Text.lower n.className, n.table, n.migration) = ("sponsor", "sponsors", true) := fun n hn =>
    List.mem_singleton.mp (of_decide_eq_true hone ▸ List.mem_map_of_mem hn)
  have hclass : ∀ m ∈ s.models.values, ∀ n ∈ t.models.values, Text.lower m.className ≠ Text.lower n.className := by
    intro m hm n hn heq
    have hmem : Text.lower m.className ∈ s.models.values.map fun m => Text.lower m.className := List.mem_map_of_mem hm
    rw [hclasses, heq, (Prod.mk.inj (hshape n hn)).1] at hmem
    exact absurd hmem (by decide)
  have htable : ∀ n ∈ t.models.values, (∀ m ∈ s.models.values, m.table ≠ n.table) ∧ n.table ∉ s.migrations.keys := by
    intro n hn
    rw [(Prod.mk.inj (Prod.mk.inj (hshape n hn)).2).1, htables]
    refine ⟨fun m hm heq => ?_, by decide⟩
    have hmem : m.table ∈ s.models.values.map Model.table := List.mem_map_of_mem hm
    rw [hown, heq] at hmem
    exact absurd hmem (by decide)
  obtain ⟨s', m, hs', hextends, hm, hmigrations⟩ := resolve_withModel h hexact (by decide +kernel) hlines ht hclass htable
  have hlast := hshape m (by unfold OrderedMap.values; rw [hm]; exact List.mem_singleton_self _)
  obtain ⟨_, hsponsors, hmigrated⟩ : _ ∧ m.table = "sponsors" ∧ m.migration = true := by simpa using hlast
  rw [if_pos hmigrated, hsponsors] at hmigrations
  exact ⟨s, t, s', m, h, ht, hs', hextends, hm, hmigrations, htables⟩

end Resolved

end Schemata
