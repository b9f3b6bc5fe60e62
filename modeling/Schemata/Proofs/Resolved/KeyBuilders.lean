import Schemata.Proofs.Resolution.Targets
import Schemata.Proofs.Resolved.Basic

/-!
# Builders of key columns

The key column of a `belongsTo` is built like a column of its target. Which one is told by the name that the line gives to the key
column, and never by the key of the target that the line may name.
-/

namespace Schemata.Resolved

open Resolution Schemata.Shorthand

variable {settings : Settings} {schema : SchemaDeclaration} {s : Resolved}

/-- A name ends in another, behind an underscore. -/
def EndsIn (name part : String) : Prop :=
  ('_' :: part.toList) <:+ name.toList

instance (name part : String) : Decidable (EndsIn name part) :=
  inferInstanceAs (Decidable (_ <:+ _))

/-- The builder of a key column that may be named: that of the first column of the target in whose name the key column's name
ends, else that of the target's key. -/
inductive Mirrors (target : Model) : Option String → String × List Argument → Prop
  | column {name before column after} : target.columns.values = before ++ column :: after → EndsIn name column.name →
      (∀ c ∈ before, ¬EndsIn name c.name) → Mirrors target (some name) column.foreignMethod
  | key {named builder} : (∀ name, named = some name → ∀ c ∈ target.columns.values, ¬EndsIn name c.name) →
      KeyBuilder builder target → Mirrors target named builder

theorem Mirrors.ne_comment {target : Model} {named : Option String} {builder : String × List Argument}
    (h : Mirrors target named builder) (hc : ∀ c ∈ target.columns.values, c.foreignMethod.1 ≠ "comment") :
    builder.1 ≠ "comment" := by
  cases h with
  | column hv _ _ => exact hc _ (hv ▸ List.mem_append_right _ List.mem_cons_self)
  | key _ hkey =>
    by_cases hp : target.primary = none
    · rw [hkey.without hp]
      decide
    · obtain ⟨j, column, hj, _, _, rfl⟩ := hkey.key hp
      exact hc column (Slots.mem_values_iff.mpr ⟨j, hj⟩)

/-- A name ends neither in that of a column which a relation of the target has, nor in that of a key which the target gives up. -/
structure Independent (target : Model) (name : String) : Prop where
  relation {j column} : target.columns.get? j = some column → target.relations.get? j ≠ none → ¬EndsIn name column.name
  key : GivesUpKey target → ¬EndsIn name "id"

/-- Of the columns in whose names such a name ends, a turn sees those that there are in the end. -/
theorem map_find?_seen {seen target : Model} (h : Seen seen target) {name : String} (hname : Independent target name) :
    (target.columns.values.find? fun c => decide (EndsIn name c.name)).map Column.untagged =
      (seen.columns.values.find? fun c => decide (EndsIn name c.name)).map Column.untagged := by
  refine Slots.map_find?_values h.order fun j => Option.ext fun u => ?_
  simp only [Option.map_eq_some_iff, Option.filter_eq_some_iff, decide_eq_true_eq]
  constructor
  · rintro ⟨column', ⟨hj, hends⟩, rfl⟩
    have hr : target.relations.get? j = none := by
      by_contra hr
      exact hname.relation hj hr hends
    obtain ⟨column, hj', hu⟩ := h.column hj hr
    exact ⟨column, ⟨hj', Column.name_eq_of_untagged hu ▸ hends⟩, hu.symm⟩
  · rintro ⟨column, ⟨hj, hends⟩, rfl⟩
    rcases h.kept hj with ⟨column', hj', hu⟩ | ⟨hid, hg⟩
    · exact ⟨column', ⟨hj', Column.name_eq_of_untagged hu ▸ hends⟩, hu⟩
    · exact absurd (hid ▸ hends) (hname.key hg)

theorem mirrors_builderFor {seen target : Model} (h : Seen seen target) (hkey : KeyBuilder seen.foreignMethod target)
    {name : String} (hname : Independent target name) : Mirrors target (some name) (builderFor seen name) := by
  have hends : (fun c : Column => ('_' :: c.name.toList).isSuffixOf name.toList) = fun c => decide (EndsIn name c.name) :=
    funext fun c => Bool.eq_iff_iff.mpr (List.isSuffixOf_iff_suffix.trans decide_eq_true_iff.symm)
  have hfound := map_find?_seen h hname
  unfold builderFor
  rw [hends]
  cases hf : seen.columns.values.find? fun c => decide (EndsIn name c.name) with
  | some column =>
    rw [hf] at hfound
    obtain ⟨column', hf', hu⟩ := Option.map_eq_some_iff.mp hfound
    obtain ⟨hp, before, after, hv, hb⟩ := List.find?_eq_some_iff_append.mp hf'
    have hmirrors : Mirrors target (some name) column'.foreignMethod :=
      .column hv (of_decide_eq_true hp) fun c hc he => by simpa [he] using hb c hc
    rwa [Column.foreignMethod_eq_of_untagged hu] at hmirrors
  | none =>
    rw [hf] at hfound
    refine .key ?_ hkey
    rintro _ ⟨⟩ c hc he
    exact List.find?_eq_none.mp (Option.map_eq_none_iff.mp hfound) c hc (decide_eq_true he)

/-- A key column that is made for a `belongsTo` has the name that its line gives it, if any, and is built like the column of the
target that its name tells, or else like the target's key. -/
theorem key_columns_mirror (h : resolve settings schema = .ok s) {l : DeclaredRelation} (hline : DeclaredBy schema l)
    {m : Model} {r : Relation} {link : BelongsTo} {column : Column} (hm : s.models.get? l.model = some m)
    (hr : m.relations.get? l.name = some r) (hl : r.link = .belongsTo link) (hcolumn : m.columns.get? l.name = some column) :
    ∃ target, s.models.get? link.model = some target ∧ column.name = link.columnKey ∧
      (∀ name, l.argument? 1 = some name → link.columnKey = name) ∧
      ((∀ name, l.argument? 1 = some name → Independent target name) → ∃ builder, Mirrors target (l.argument? 1) builder ∧
        (builder.1 ≠ "comment" → column.type = builder.1 ∧ column.arguments = builder.2)) := by
  obtain ⟨c, hmodels, _⟩ := exists_course_of_resolve h
  rw [hmodels] at hm ⊢
  obtain ⟨d, owner, seen, made, ho, rfl⟩ := c.exists_owned_of_link hline hm hr hl
  obtain ⟨target, htarget⟩ := c.exists_complete ho.before ho.get?_target
  have hkey : KeyBuilder seen.foreignMethod target := c.keyBuilder ho.before (by decide) ho.get?_target htarget
  obtain ⟨name, builder, rfl, hunnamed, hnamed⟩ := keyColumn_ok ho.keyColumn_ok
  have hu := c.untagged_eq ho hcolumn
  refine ⟨target, htarget, Column.name_eq_of_untagged hu, fun given hg => (hnamed given hg).1, fun hindependent =>
    ⟨builder, ?_, fun hcomment => ?_⟩⟩
  · cases hg : l.argument? 1 with
    | none =>
      obtain ⟨_, rfl, _⟩ := hunnamed hg
      exact .key (fun _ hn => nomatch hn) hkey
    | some given =>
      obtain ⟨_, rfl⟩ := hnamed given hg
      exact mirrors_builderFor (c.seen ho htarget) hkey (hindependent given hg)
  · obtain ⟨htype, harguments⟩ := Column.builder_ofCall_single hcomment name builder.2 l.columnMethods
    exact ⟨(congrArg Column.type hu).trans htype, (congrArg Column.arguments hu).trans harguments⟩

/-- A schema whose key columns could be built like other columns: one whose name ends in two, and one beside a named key. -/
def postal : SchemaDeclaration where
  rootNamespace := none
  models := .ofList [
    ("Post", declaredByLines [("author", "belongsTo:User,author_zip_code"), ("editor", "belongsTo:User,editor,zip_code")]),
    ("User", .map [(.str "id", .str "id:code"), (.str "zip_code", .str "string:5"), (.str "team", .str "belongsTo")]),
    ("Team", declaredByLines [("name", "string")])]
  migrations := .empty

/-- The relations of its posts, each with the names that its line gives to the key column and to a key. -/
def postalRelations : List (String × String × Option String) :=
  [("author", "author_zip_code", none), ("editor", "editor", some "zip_code")]

theorem postal_key_columns_mirror : ∃ s post user, resolve .standard postal = .ok s ∧ s.models.get? "Post" = some post ∧
    s.models.get? "User" = some user ∧ ∀ n name key, (n, name, key) ∈ postalRelations → ∃ r column builder,
      post.relations.get? n = some r ∧ r.link = .belongsTo ⟨"User", name, key⟩ ∧ post.columns.get? n = some column ∧
      column.name = name ∧ Mirrors user (some name) builder ∧ column.type = builder.1 ∧ column.arguments = builder.2 := by
  have hlines : ∀ x ∈ postalRelations, (postal.models.get? "Post").any (fun y =>
      (modelDeclaration "Post" y).toOption.any fun s => (s.columns.get? x.1).any fun line => line.any fun text =>
        (DeclaredRelation.parse "Post" x.1 (.parse text)).toOption.any fun l => l.argument? 1 = some x.2.1) = true := by
    decide +kernel
  have hpostal : (resolve .standard postal).toOption.any (fun s => (s.models.get? "Post").any fun post =>
      (s.models.get? "User").any fun user => (user.isPivot = false ∧
        ∀ c ∈ user.columns.values, c.foreignMethod.1 ≠ "comment") ∧
        ∀ x ∈ postalRelations, (post.relations.get? x.1).any (fun r => r.link = .belongsTo ⟨"User", x.2.1, x.2.2⟩) ∧
          (post.columns.get? x.1).isSome ∧
          ∀ y ∈ user.columns.resolved, user.relations.get? y.1 ≠ none → ¬EndsIn x.2.1 y.2.name) = true := by decide +kernel
  obtain ⟨s, h, hs⟩ := exists_resolved_of_any hpostal
  obtain ⟨post, hpost, hp⟩ := exists_of_any hs
  obtain ⟨user, huser, hp⟩ := exists_of_any hp
  obtain ⟨⟨hpivot, hcomment⟩, hmade⟩ := of_decide_eq_true hp
  refine ⟨s, post, user, h, hpost, huser, fun n name key hx => ?_⟩
  obtain ⟨hlink, hcolumn, hapart⟩ := hmade _ hx
  obtain ⟨r, hr, hl⟩ := exists_of_any hlink
  obtain ⟨column, hcolumn⟩ := Option.isSome_iff_exists.mp hcolumn
  obtain ⟨l, hdeclared, hmodel, hname, hargument⟩ := exists_declaredBy_of_any (hlines _ hx)
  have hargument : l.argument? 1 = some name := of_decide_eq_true hargument
  have hlink : r.link = .belongsTo ⟨"User", name, key⟩ := of_decide_eq_true hl
  obtain ⟨target, htarget, hnamed, _, hmirrors⟩ :=
    key_columns_mirror h hdeclared (hmodel ▸ hpost) (hname ▸ hr) hlink (hname ▸ hcolumn)
  obtain rfl := Option.some_inj.mp (huser.symm.trans htarget)
  have hindependent : Independent user name :=
    ⟨fun hj => hapart _ (Slots.mem_resolved_iff.mpr hj), fun hg => absurd (hpivot.symm.trans hg.1) Bool.false_ne_true⟩
  obtain ⟨builder, hmirrors, hbuilder⟩ := hmirrors fun given hg => by
    obtain rfl := Option.some_inj.mp (hargument.symm.trans hg)
    exact hindependent
  obtain ⟨htype, harguments⟩ := hbuilder (hmirrors.ne_comment hcomment)
  exact ⟨r, column, builder, hr, hlink, hcolumn, hnamed, hargument ▸ hmirrors, htype, harguments⟩

/-- A column is the most specific one of a model in whose name another name ends. -/
def MostSpecific (m : Model) (name : String) (column : Column) : Prop :=
  column ∈ m.columns.values ∧ EndsIn name column.name ∧
    ∀ c ∈ m.columns.values, EndsIn name c.name → c.name.length ≤ column.name.length

instance (m : Model) (name : String) (column : Column) : Decidable (MostSpecific m name column) :=
  inferInstanceAs (Decidable (_ ∧ _ ∧ _))

theorem postal_mirrors_others : ∃ s post user author editor zip, resolve .standard postal = .ok s ∧
    s.models.get? "Post" = some post ∧ s.models.get? "User" = some user ∧
    (post.columns.get? "author" = some author ∧ post.columns.get? "editor" = some editor ∧
      user.columns.get? "zip_code" = some zip) ∧
    post.relations.values.map (·.link) =
      [.belongsTo ⟨"User", author.name, none⟩, .belongsTo ⟨"User", editor.name, zip.name⟩] ∧
    (MostSpecific user author.name zip ∧ (author.type, author.arguments) ≠ zip.foreignMethod) ∧
    (editor.type, editor.arguments) ≠ zip.foreignMethod := by
  have hpostal : (resolve .standard postal).toOption.any (fun s => (s.models.get? "Post").any fun post =>
      (s.models.get? "User").any fun user => (post.columns.get? "author").any fun author =>
      (post.columns.get? "editor").any fun editor => (user.columns.get? "zip_code").any fun zip =>
        post.relations.values.map (·.link) =
          [.belongsTo ⟨"User", author.name, none⟩, .belongsTo ⟨"User", editor.name, zip.name⟩] ∧
        (MostSpecific user author.name zip ∧ (author.type, author.arguments) ≠ zip.foreignMethod) ∧
        (editor.type, editor.arguments) ≠ zip.foreignMethod) = true := by decide +kernel
  obtain ⟨s, h, hs⟩ := exists_resolved_of_any hpostal
  obtain ⟨post, hpost, hp⟩ := exists_of_any hs
  obtain ⟨user, huser, hp⟩ := exists_of_any hp
  obtain ⟨author, hauthor, hp⟩ := exists_of_any hp
  obtain ⟨editor, heditor, hp⟩ := exists_of_any hp
  obtain ⟨zip, hzip, hp⟩ := exists_of_any hp
  exact ⟨s, post, user, author, editor, zip, h, hpost, huser, ⟨hauthor, heditor, hzip⟩, of_decide_eq_true hp⟩

end Schemata.Resolved
