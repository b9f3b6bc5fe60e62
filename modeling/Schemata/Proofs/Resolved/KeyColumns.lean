import Schemata.Proofs.Resolution.Pointers
import Schemata.Proofs.Resolved.Basic

/-!
# Key columns of a resolved schema

What the key column of a `belongsTo` refers to. A pivot model may have given up the key that others refer to.
-/

namespace Schemata.Resolved

open Resolution

variable {settings : Settings} {schema : SchemaDeclaration} {s : Resolved}

/-- The column in the place of a pointer has the name of the pointer's pair. -/
theorem exists_pointer_of_line (c : Course settings schema) {k j : String} {m : Model} {column : Column}
    (hm : c.complete.models.get? k = some m) (hj : (j, .morphTo) ∈ c.complete.relationLines k)
    (hcolumn : m.columns.get? j = some column) :
    ∃ r link, m.relations.get? j = some r ∧ r.link = .morphTo link ∧ column.name = link.columnName := by
  have hsound := c.founded.sound.model k m hm
  have hmem : j ∈ m.relations.keys := hsound.names ▸ List.mem_map_of_mem hj
  have hpending : m.relations.pendingKeys = [] := (c.complete_models hm).2
  rcases Slots.mem_keys_iff_pending_or_filled.mp hmem with hp | ⟨r, hr⟩
  · rw [hpending] at hp
    exact absurd hp List.not_mem_nil
  · have hkind : r.link.kind = .morphTo := Draft.kind_unique (hsound.relation hr).2.1 hj
    cases hl : r.link with
    | morphTo link =>
      obtain ⟨l, shape, hpaired, rfl, rfl⟩ := c.exists_paired hm hr hl
      obtain ⟨made, hmade, hu⟩ := hpaired.column
      obtain rfl := Option.some_inj.mp (hcolumn.symm.trans hmade)
      rw [morphColumn_eq] at hu
      exact ⟨r, link, hr, hl, congrArg Column.name hu⟩
    | _ => rw [hl] at hkind; cases hkind

/-- A key column of a builder refers to the key of a model, which is there unless the model has given up a key that was added
to it. The builder is that of the column with the key's name in the place of no relation. -/
structure RefersToKey (builder : String × List Shorthand.Argument) (target : Model) : Prop where
  given_up : target.primary = none ↔ target.isPivot = true ∧ target.autoId = true
  key : target.primary ≠ none → ∃ j key, target.columns.get? j = some key ∧ target.relations.get? j = none ∧
    key.name = target.primaryName ∧ builder = key.foreignMethod
  /-- By the name of the key a pair may be found in the stead of its column. -/
  lookup : (∀ j r pointer, target.relations.get? j = some r → r.link = .morphTo pointer →
    pointer.columnName ≠ target.primaryName) → builder = target.foreignMethod

/-- A `belongsTo` whose line does not name its column refers to the key of its target: by its name, and where the key column is
made for it by its builder. The target has that key in the end unless it has become a pivot model and the key was added to it. -/
theorem belongsTo_refers (h : resolve settings schema = .ok s) {l : DeclaredRelation} (hline : DeclaredBy schema l)
    (hunnamed : l.argument? 1 = none) {m : Model} {r : Relation} {link : BelongsTo} (hm : s.models.get? l.model = some m)
    (hr : m.relations.get? l.name = some r) (hl : r.link = .belongsTo link) :
    ∃ target builder, s.models.get? link.model = some target ∧ RefersToKey builder target ∧
      link.columnKey = Convention.foreignKey target.className target.primaryName ∧
      ∀ column, m.columns.get? l.name = some column →
        column.untagged = (Column.ofCall link.columnKey (l.columnCall builder.1 builder.2)).untagged := by
  obtain ⟨c, hmodels, _⟩ := exists_course_of_resolve h
  rw [hmodels] at hm ⊢
  have hkind : (l.name, .belongsTo) ∈ c.declared.relationLines l.model := by
    have hkind := c.mem_relationLines hm hr
    rwa [Relation.kind, hl] at hkind
  obtain ⟨l', d, owner, target, column, ho, hmodel, hname, _⟩ := c.exists_owned hm hkind
  obtain rfl : l' = l := hline.unique (c.declaredBy ho.declares) hmodel hname
  obtain ⟨n, builder, hn, rfl, hgives, hkey, hlooked⟩ := c.refers ho hunnamed
  obtain rfl := Option.some_inj.mp (hr.symm.trans ho.relation)
  obtain rfl := Link.belongsTo.inj hl
  refine ⟨n, builder, hn, ⟨hgives, hkey, fun hpairs => hlooked fun j c' hj hc' => ?_⟩, rfl, fun placed hplaced => ?_⟩
  · obtain ⟨r', pointer, hr', hl', hname⟩ := exists_pointer_of_line c hn hj hc'
    exact hname ▸ hpairs j r' pointer hr' hl'
  · cases hd : declaredKey? owner l'.name _ with
    | some j => exact absurd (Slots.mem_keys_iff.mpr ⟨_, Slots.get?_eq_some_iff.mp hplaced⟩) (ho.given_up hd)
    | none =>
      obtain ⟨made, hmade, hu⟩ := ho.placed hd
      obtain rfl := Option.some_inj.mp (hplaced.symm.trans hmade)
      exact hu

theorem blog_belongsTo_refers : ∃ s m target column, resolve .standard blog = .ok s ∧ s.models.get? "Comment" = some m ∧
    (m.relations.get? "post").map (·.link) = some (.belongsTo ⟨"Post", "post_id", none⟩) ∧
    s.models.get? "Post" = some target ∧ target.primary ≠ none ∧
    "post_id" = Convention.foreignKey target.className target.primaryName ∧ m.columns.get? "post" = some column ∧
    column.untagged = (Column.ofCall "post_id" (.single "unsignedBigInteger" [])).untagged := by
  let l : DeclaredRelation := ⟨"Comment", "post", .belongsTo, [], .empty, none, [], .empty⟩
  have hline : (blog.models.get? "Comment").any (fun y => (modelDeclaration "Comment" y).toOption.any fun declaration =>
      declaration.columns.get? "post" = some (some "belongsTo") ∧
      (DeclaredRelation.parse "Comment" "post" (.parse "belongsTo")).toOption = some l) = true := by decide +kernel
  obtain ⟨y, hy, hline⟩ := exists_of_any hline
  obtain ⟨declaration, hread, hline⟩ := exists_of_any hline
  obtain ⟨htext, hp⟩ := of_decide_eq_true hline
  have hdeclared : DeclaredBy blog l :=
    ⟨y, declaration, "belongsTo", hy, ok_of_toOption hread, htext, ok_of_toOption hp⟩
  have hcomment : (resolve .standard blog).toOption.any (fun s => (s.models.get? "Comment").any fun m =>
      ((m.relations.get? "post").any fun r => r.link = .belongsTo ⟨"Post", "post_id", none⟩) ∧
      (s.models.get? "Post").any (fun target => target.primary.isSome ∧ target.morphToRelations = [] ∧
        target.foreignMethod = ("unsignedBigInteger", [])) ∧ (m.columns.get? "post").isSome) = true := by decide +kernel
  obtain ⟨s, h, hs⟩ := exists_resolved_of_any hcomment
  obtain ⟨m, hm, hp⟩ := exists_of_any hs
  obtain ⟨hpost, htarget, hcolumn⟩ := of_decide_eq_true hp
  obtain ⟨r, hr, hl⟩ := exists_of_any hpost
  obtain ⟨target', htarget', hp⟩ := exists_of_any htarget
  obtain ⟨hprimary, hpointers, hmethod⟩ := of_decide_eq_true hp
  obtain ⟨column, hcolumn⟩ := Option.isSome_iff_exists.mp hcolumn
  have hl := of_decide_eq_true hl
  obtain ⟨target, builder, ht, hrefers, hkey, hmade⟩ := belongsTo_refers h hdeclared rfl hm hr hl
  obtain rfl := Option.some_inj.mp (htarget'.symm.trans ht)
  have hbuilder := hrefers.lookup fun j r' pointer hr' hl' =>
    absurd (mem_morphToRelations.mpr ⟨j, hr', hl'⟩) (hpointers ▸ List.not_mem_nil)
  have hmade := hmade column hcolumn
  rw [hbuilder, hmethod] at hmade
  exact ⟨s, m, target', column, h, hm, by rw [hr, Option.map_some, hl], ht, Option.isSome_iff_ne_none.mp hprimary, hkey, hcolumn,
    hmade⟩

/-- A model that belongs to a pivot model with an added key. -/
def audits : SchemaDeclaration where
  rootNamespace := none
  models := .ofList [
    ("User", declaredByLines [("roles", "belongsToMany using:RoleUser")]),
    ("Role", declaredByLines [("name", "string")]),
    ("RoleUser", declaredByLines [("user", "belongsTo"), ("role", "belongsTo")]),
    ("Audit", declaredByLines [("entry", "belongsTo:RoleUser"), ("note", "string")])]
  migrations := .empty

theorem audits_refers_to_no_key : ∃ s m target r, resolve .standard audits = .ok s ∧ s.models.get? "Audit" = some m ∧
    m.relations.get? "entry" = some r ∧ r.link = .belongsTo ⟨"RoleUser", "role_user_id", none⟩ ∧
    s.models.get? "RoleUser" = some target ∧ target.primary = none ∧ "id" ∉ target.columns.keys ∧
    (DeclaredRelation.parse "Audit" "entry" (.parse "belongsTo:RoleUser")).toOption.map (·.argument? 1) = some none := by
  have haudit : (resolve .standard audits).toOption.any (fun s => (s.models.get? "Audit").any fun m =>
      (s.models.get? "RoleUser").any fun target => target.primary = none ∧ "id" ∉ target.columns.keys ∧
        (m.relations.get? "entry").any fun r => r.link = .belongsTo ⟨"RoleUser", "role_user_id", none⟩) = true := by
    decide +kernel
  obtain ⟨s, h, hs⟩ := exists_resolved_of_any haudit
  obtain ⟨m, hm, hp⟩ := exists_of_any hs
  obtain ⟨target, htarget, hp⟩ := exists_of_any hp
  obtain ⟨hprimary, hid, hp⟩ := of_decide_eq_true hp
  obtain ⟨r, hr, hl⟩ := exists_of_any hp
  exact ⟨s, m, target, r, h, hm, hr, of_decide_eq_true hl, htarget, hprimary, hid, by decide +kernel⟩

end Schemata.Resolved
