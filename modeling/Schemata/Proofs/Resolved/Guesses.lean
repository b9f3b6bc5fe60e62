import Schemata.Proofs.Resolution.Guesses
import Schemata.Proofs.Resolved.Qualifiers

/-!
# Guesses of resolved schemas

What a relation line leaves to be guessed may as well be written out: the schema resolves to the same.
-/

namespace Schemata.Resolved

open Resolution Shorthand

variable {settings : Settings} {schema : SchemaDeclaration} {s : Resolved}

/-- A line in other words that spell out the models of its link makes no difference to how the schema resolves. -/
theorem resolve_reworded (h : resolve settings schema = .ok s) {l l' : DeclaredRelation} {old new : String}
    (hw : Rewording l l' old new) (hk : l.kind ≠ .morphTo) {m : Model} {r : Relation}
    (hm : s.models.get? l.model = some m) (hr : m.relations.get? l.name = some r) (hs : Spells l l' r.link.targets) :
    resolve settings (schema.reword l.model l.name old new) = .ok s := by
  obtain ⟨e, hc, rfl⟩ := completes_of_resolve h
  rw [standardPasses_eq] at hc
  obtain ⟨d, hd, hrest⟩ := completes_append.mp hc
  have hmodels : (ofDraft e).models = d.models := (settled_of_modelPasses hd hrest).models
  obtain ⟨c, rfl⟩ := exists_course hd
  have hlast : ∀ pass ∈ [Pass.finalizeModels, .explicitMigrations, .modelMigrations, .pivotMigrations, .artifacts],
      Rewords l.model l.name old new pass.body := by
    simp only [List.forall_mem_cons]
    exact ⟨rewords_finalizeModels, rewords_explicitMigrations, rewords_modelMigrations, rewords_pivotMigrations,
      rewords_artifacts, by simp⟩
  have hrun := (c.reworded hw (hmodels ▸ hm) hr hs hk).append (completes_reword hlast hrest)
  have hvalid := validate_of_resolve_ok h
  have hv : (settingsFor settings (schema.reword l.model l.name old new)).validate = .ok () := hvalid
  have hresolved := resolve_of_completes hv hrun
  exact hresolved

/-- Guessing is the same as writing out. Where every key may stand as an argument, a relation line that is given the key of its
target for its first argument, and that of the model between for its second if it is a line through another model, resolves to
what it resolves to as it is. -/
theorem resolve_writeOut (h : resolve settings schema = .ok s) (hkeys : ∀ key ∈ schema.models.keys, IsPlainKey key)
    {k n text : String} {kind : RelationKind} (hline : DeclaresLine schema k n text)
    (hkind : DeclaredRelation.kindOf? (.parse text) = some kind) (hk : kind ≠ .morphTo) :
    ∃ m r target, s.models.get? k = some m ∧ m.relations.get? n = some r ∧ r.kind = kind ∧ r.link.model? = some target ∧
      resolve settings (schema.reword k n text (writeOut r.link.targets text)) = .ok s := by
  obtain ⟨c, hmodels, _⟩ := exists_course_of_resolve h
  obtain ⟨m, r, hm, hr, rfl, hlines⟩ := exists_relation_of_line c hline hkind
  obtain ⟨l, hl, rfl, rfl⟩ := c.exists_declares hlines
  have hparse := hline.parse (c.declaredBy hl)
  have hlk : l.kind ≠ .morphTo := Draft.kind_unique hl.line hlines ▸ hk
  obtain ⟨target, htarget⟩ : ∃ target, r.link.model? = some target := by
    unfold Relation.kind at hk
    cases hl : r.link <;> simp_all [Link.kind, Link.model?]
  have hne : r.link.targets ≠ [] := by
    unfold Link.targets
    split <;> simp [htarget]
  have hplain : ∀ key ∈ r.link.targets, IsPlainKey key := by
    intro key hkey
    have href := ((c.founded.sound.model l.model m hm).relation hr).2.2 (r.link.targets_subset hkey)
    rw [c.founded.sound.keys, c.founded.read.keys] at href
    exact hkeys key href
  obtain ⟨l', hparse', hs⟩ := exists_spelled hne hplain hparse
  have hm' : s.models.get? l.model = some m := hmodels ▸ hm
  exact ⟨m, r, target, hm', hr, rfl, htarget, resolve_reworded h (hs.rewording hparse hparse') hlk hm' hr hs⟩

/-- A schema with targets that are left to be guessed, one of them behind another model. -/
def atlas : SchemaDeclaration where
  rootNamespace := none
  models := .ofList [
    ("Country", declaredByLines [("name", "string"), ("posts", "hasManyThrough")]),
    ("User", declaredByLines [("country", "belongsTo nullable"), ("name", "string")]),
    ("Post", declaredByLines [("user", "belongsTo:null,author_id"), ("title", "string")])]
  migrations := .empty

theorem atlas_resolve_writeOut : ∃ s, resolve .standard atlas = .ok s ∧
    resolve .standard (atlas.reword "Post" "user" "belongsTo:null,author_id" "belongsTo:User,author_id") = .ok s ∧
    resolve .standard (atlas.reword "Country" "posts" "hasManyThrough" "hasManyThrough:Post,User") = .ok s := by
  have hatlas : (resolve .standard atlas).toOption.any (fun s =>
      ((s.models.get? "Post").any fun post => (post.relations.get? "user").any fun r => r.link.targets = ["User"]) ∧
      (s.models.get? "Country").any fun country => (country.relations.get? "posts").any fun r =>
        r.link.targets = ["Post", "User"]) = true := by decide +kernel
  obtain ⟨s, h, hs⟩ := exists_resolved_of_any hatlas
  obtain ⟨hpost, hcountry⟩ := of_decide_eq_true hs
  obtain ⟨post, hpost, hp⟩ := exists_of_any hpost
  obtain ⟨user, huser, htarget⟩ := exists_of_any hp
  obtain ⟨country, hcountry, hc⟩ := exists_of_any hcountry
  obtain ⟨posts, hposts, hpair⟩ := exists_of_any hc
  have hkeys : ∀ key ∈ atlas.models.keys, IsPlainKey key := by decide +kernel
  have hwriter : DeclaresLine atlas "Post" "user" "belongsTo:null,author_id" := declaresLine_of_any (by decide +kernel)
  have hmany : DeclaresLine atlas "Country" "posts" "hasManyThrough" := declaresLine_of_any (by decide +kernel)
  have hkind : DeclaredRelation.kindOf? (.parse "belongsTo:null,author_id") = some .belongsTo := by decide +kernel
  have hkind' : DeclaredRelation.kindOf? (.parse "hasManyThrough") = some .hasManyThrough := by decide +kernel
  obtain ⟨post', user', _, hpost', huser', _, _, hwritten⟩ := resolve_writeOut h hkeys hwriter hkind (by decide)
  obtain ⟨country', posts', _, hcountry', hposts', _, _, hwritten'⟩ := resolve_writeOut h hkeys hmany hkind' (by decide)
  obtain rfl := Option.some_inj.mp (hpost.symm.trans hpost')
  obtain rfl := Option.some_inj.mp (huser.symm.trans huser')
  obtain rfl := Option.some_inj.mp (hcountry.symm.trans hcountry')
  obtain rfl := Option.some_inj.mp (hposts.symm.trans hposts')
  rw [of_decide_eq_true htarget] at hwritten
  rw [of_decide_eq_true hpair] at hwritten'
  have htext : writeOut ["User"] "belongsTo:null,author_id" = "belongsTo:User,author_id" := by decide +kernel
  have htext' : writeOut ["Post", "User"] "hasManyThrough" = "hasManyThrough:Post,User" := by decide +kernel
  exact ⟨s, h, htext ▸ hwritten, htext' ▸ hwritten'⟩

end Schemata.Resolved
