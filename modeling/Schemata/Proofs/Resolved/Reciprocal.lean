import Schemata.Proofs.Resolution.Reciprocal
import Schemata.Proofs.Resolved.PivotTables
import Schemata.Proofs.Resolved.Qualifiers

/-!
# Reciprocal relations of a schema

Two models that declare a relation to each other through a table, and leave it to be found, come to the same table.
-/

namespace Schemata.Resolved

open Resolution

variable {settings : Settings} {schema : SchemaDeclaration} {d : Draft}

/-- When the pass of pivots begins, two lines without pivot models whose targets are each other's models agree. A `belongsToMany`
and another one that leave table and keys to be found mirror each other, and so do a `morphToMany` and a `morphedByMany` that leave
their name to be found. The table that is made up for one of them is never in conflict with that of the other. -/
theorem reciprocal_links_agree
    (h : Completes (modelPasses ++ [.finalizeModels, .explicitMigrations, .modelMigrations]) (.start settings schema) d)
    {l l' : DeclaredRelation} (hline : DeclaredBy schema l) (hline' : DeclaredBy schema l') (hto : d.target l = .ok l'.model)
    (hfro : d.target l' = .ok l.model) (hp : l.pivot = none) (hp' : l'.pivot = none) :
    ∃ m r m' r', d.models.get? l.model = some m ∧ m.relations.get? l.name = some r ∧ d.models.get? l'.model = some m' ∧
      m'.relations.get? l'.name = some r' ∧
      (l.kind = .belongsToMany → l'.kind = .belongsToMany → (∀ i ∈ [1, 2, 3], l.argument? i = none) →
        (∀ i ∈ [1, 2, 3], l'.argument? i = none) → ∃ link link' t, ManyMirrored d m r m' r' link link' t) ∧
      (l.kind = .morphToMany → l'.kind = .morphedByMany → l.argument? 1 = none → l'.argument? 1 = none →
        ∃ link link', MorphsMirrored d m r m' r' link link') := by
  obtain ⟨c, hd⟩ := exists_course_of_tables h
  rw [Draft.target_congr (Draft.findModel?_of_models hd)] at hto hfro
  obtain ⟨m, r, hm, hr, hkind⟩ := exists_relation_of_declaredBy c hline
  obtain ⟨m', r', hm', hr', hkind'⟩ := exists_relation_of_declaredBy c hline'
  refine ⟨m, r, m', r', hd ▸ hm, hr, hd ▸ hm', hr', fun hk hk' hnone hnone' => ?_, fun hk hk' hnone hnone' => ?_⟩
  · exact c.manyMirrored hline hm hr hp hline' hm' hr' hp' hto hfro hd (hkind.trans hk) (hkind'.trans hk') hnone hnone'
  · exact c.morphsMirrored hline hm hr hp hline' hm' hr' hp' hto hfro hd (hkind.trans hk) (hkind'.trans hk') hnone hnone'

/-- A relation line that gives nothing but its kind. -/
def bareLine (kind : RelationKind) (model name : String) : DeclaredRelation :=
  ⟨model, name, kind, [], .empty, none, [], .empty⟩

/-- A schema with two pairs of models that are linked to each other, and with keys of different makes. -/
def circles : SchemaDeclaration where
  rootNamespace := none
  models := .ofList [
    ("User", declaredByLines [("uuid", "primary"), ("roles", "belongsToMany")]),
    ("Role", declaredByLines [("code", "string:12 primary"), ("users", "belongsToMany")]),
    ("Post", declaredByLines [("title", "string"), ("tags", "morphToMany")]),
    ("Tag", declaredByLines [("label", "string"), ("posts", "morphedByMany")])]
  migrations := .empty

/-- The lines of relations, with their targets. -/
def circleLines : List (DeclaredRelation × String) :=
  [(bareLine .belongsToMany "User" "roles", "Role"), (bareLine .belongsToMany "Role" "users", "User"),
    (bareLine .morphToMany "Post" "tags", "Tag"), (bareLine .morphedByMany "Tag" "posts", "Post")]

theorem circles_links_agree : ∃ d user roles role users post tags tag posts,
    Completes (modelPasses ++ [.finalizeModels, .explicitMigrations, .modelMigrations])
      (.start (settingsFor .standard circles) circles) d ∧
    d.models.get? "User" = some user ∧ user.relations.get? "roles" = some roles ∧
    d.models.get? "Role" = some role ∧ role.relations.get? "users" = some users ∧
    d.models.get? "Post" = some post ∧ post.relations.get? "tags" = some tags ∧
    d.models.get? "Tag" = some tag ∧ tag.relations.get? "posts" = some posts ∧
    (∃ link link' t, ManyMirrored d user roles role users link link' t) ∧
    ∃ link link' t, MorphsMirrored d post tags tag posts link link' ∧ SharesTable d post tags tag posts t := by
  have hlines : ∀ x ∈ circleLines, (circles.models.get? x.1.model).any (fun y =>
      (modelDeclaration x.1.model y).toOption.any fun s => (s.columns.get? x.1.name).any fun line => line.any fun text =>
        (DeclaredRelation.parse x.1.model x.1.name (.parse text)).toOption.any (· = x.1)) = true := by decide +kernel
  have hcircles : (resolve .standard circles).toOption.any (fun s =>
      let d : Draft := { Draft.start .standard circles with models := s.models }
      (∀ x ∈ circleLines, (d.target x.1).toOption = some x.2) ∧
      (s.models.get? "Post").any fun post => (KeyShape.of post).isUsable) = true := by decide +kernel
  obtain ⟨s, h, hs⟩ := exists_resolved_of_any hcircles
  obtain ⟨htargets, hpost⟩ := of_decide_eq_true hs
  obtain ⟨d, _, hd, _, hmodels, _⟩ := exists_pivotMigrations h
  have declared : ∀ x ∈ circleLines, DeclaredBy circles x.1 := fun x hx => by
    obtain ⟨l, hl, _, _, heq⟩ := exists_declaredBy_of_any (hlines x hx)
    exact of_decide_eq_true heq ▸ hl
  have target : ∀ x ∈ circleLines, d.target x.1 = .ok x.2 := fun x hx =>
    (Draft.target_congr (Draft.findModel?_of_models hmodels) x.1).trans (ok_of_toOption (htargets x hx))
  obtain ⟨hroles, husers, htags, hposts⟩ : _ ∈ circleLines ∧ _ ∈ circleLines ∧ _ ∈ circleLines ∧ _ ∈ circleLines :=
    ⟨.head _, .tail _ (.head _), .tail _ (.tail _ (.head _)), .tail _ (.tail _ (.tail _ (.head _)))⟩
  obtain ⟨user, roles, role, users, huser, hroles, hrole, husers, hmany, _⟩ := reciprocal_links_agree hd (declared _ hroles)
    (declared _ husers) (target _ hroles) (target _ husers) rfl rfl
  obtain ⟨post, tags, tag, posts, hpost', htags, htag, hposts, _, hmorphs⟩ := reciprocal_links_agree hd (declared _ htags)
    (declared _ hposts) (target _ htags) (target _ hposts) rfl rfl
  obtain ⟨post₀, hpost₀, husable⟩ := exists_of_any hpost
  obtain rfl := Option.some_inj.mp (hpost₀.symm.trans (hmodels ▸ hpost'))
  obtain ⟨link, link', hmirrored⟩ := hmorphs rfl rfl rfl rfl
  obtain ⟨t, ht⟩ := hmirrored.shared husable
  exact ⟨d, user, roles, role, users, post₀, tags, tag, posts, hd, huser, hroles, hrole, husers, hpost', htags, htag, hposts,
    hmany rfl rfl (by decide) (by decide), link, link', t, hmirrored, ht⟩

end Schemata.Resolved
