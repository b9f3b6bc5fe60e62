import Schemata.Proofs.Inflection.Restored
import Schemata.Proofs.Resolved.SnakeCase

/-!
# Relations that are called by plurals

A relation to many models whose line names no target is called by the plural of a class. If that class comes back from its plural,
it is tried first, and the relation is one to its model.
-/

namespace Schemata

open Schemata.Text Schemata.Inflection

namespace Resolution

/-- The class that is tried first is the target if there is such a model. -/
theorem target_of_head? {d : Draft} {l : DeclaredRelation} {first key : String} (hl : l.argument? 0 = none)
    (hfirst : (Convention.modelCandidates l.kind l.name).head? = some first) (hfind : d.findModel? first = some key) :
    d.target l = .ok key := by
  obtain ⟨rest, hcandidates⟩ := List.head?_eq_some_iff.mp hfirst
  have hguess : d.guessModel? l.kind l.name = some key := by
    rw [Draft.guessModel?, hcandidates, List.findSome?_cons, hfind]
  rw [Draft.target, hl]
  simp only [hguess]
  rfl

/-- A class name of letters means its model. -/
theorem Draft.Classed.findModel?_className {settings : Settings} {d : Draft} (h : d.Classed settings) {k : String} {m : Model}
    (hm : d.models.get? k = some m) (hletters : ∀ c ∈ m.className.toList, c.isAlpha = true) :
    d.findModel? m.className = some k := by
  have hslash : ∀ c : Char, c.toNat < 128 → c.isAlpha = true → isSlash c = false := forall_ascii (by decide)
  have hascii : IsAscii m.className := fun c hc => toNat_lt_of_isAlpha (hletters c hc)
  have hself : sameAscii (studly m.className) m.className = true := sameAscii_studly hascii (h.isJoint_className hm)
  exact h.findModel?_eq hm (fun c hc => hslash c (hascii c hc) (hletters c hc)) hself (sameAscii_refl _)

end Resolution

namespace Resolved

open Resolution

/-- The kinds of relations to many models that go through no other model. -/
def manyKinds : List RelationKind :=
  [.hasMany, .belongsToMany, .morphMany, .morphToMany, .morphedByMany]

theorem exists_targets_of_many {link : Link} (h : link.kind ∈ manyKinds) : ∃ key, link.targets = [key] := by
  cases link <;> first | exact ⟨_, rfl⟩ | simp [Link.kind, manyKinds] at h

/-- A word of letters comes back from its plural if its last segment does. A class of such a name is tried first for a relation to
many models that is called by the plural of the class with a lower case start: without a target, it is a relation to the model
of the class. -/
theorem plural_names_class (word : String) (hne : word ≠ "") (hletters : ∀ c ∈ word.toList, c.isAlpha = true) :
    (singular (plural word) = word ↔ Restored (lastLower word)) ∧
      ∀ l : DeclaredRelation, l.kind ∈ manyKinds → l.name = plural (String.ofList (lowerFirst word.toList)) →
        ((Convention.modelCandidates l.kind l.name).head? = some word ↔
          (∀ c ∈ word.toList.head?, c.isUpper = true) ∧ Restored (lastLower word)) ∧
        ∀ settings schema s, resolve settings schema = .ok s → DeclaredBy schema l → l.argument? 0 = none →
          (∀ c ∈ word.toList.head?, c.isUpper = true) → Restored (lastLower word) →
          ∀ k m, s.models.get? k = some m → m.className = word → ∃ owner r, s.models.get? l.model = some owner ∧
            owner.relations.get? l.name = some r ∧ r.kind = l.kind ∧ r.link.targets = [k] := by
  have hcs : word.toList ≠ [] := fun he => hne (String.toList_eq_nil_iff.mp he)
  refine ⟨singular_plural_eq_iff hcs hletters, fun l hkind hname => ?_⟩
  have hcollection : l.kind.isCollection = true := by
    have hall : ∀ kind ∈ manyKinds, kind.isCollection = true := by decide
    exact hall l.kind hkind
  have hfirst : (Convention.modelCandidates l.kind l.name).head? = some word ↔
      (∀ c ∈ word.toList.head?, c.isUpper = true) ∧ Restored (lastLower word) := by
    rw [head?_modelCandidates hcollection, hname, Option.some_inj, studly_singular_iff hcs hletters]
  refine ⟨hfirst, fun settings schema s h hline hnone hcapital hrestored k m hm hclass => ?_⟩
  obtain ⟨c, hmodels, _⟩ := exists_course_of_resolve h
  rw [hmodels] at hm ⊢
  subst hclass
  obtain ⟨owner, r, howner, hr, _⟩ := exists_relation_of_declaredBy c hline
  obtain ⟨l', hl', hmodel', hname', htakes, htarget⟩ := c.exists_takesOver howner hr
  obtain rfl : l' = l := hline.unique (c.declaredBy hl') hmodel' hname'
  obtain ⟨key, htargets⟩ := exists_targets_of_many (htakes.kind ▸ hkind)
  have hfound : c.complete.target l' = .ok k :=
    target_of_head? hnone (hfirst.mpr ⟨hcapital, hrestored⟩) (c.classed.findModel?_className hm hletters)
  obtain rfl : key = k := Except.ok.inj ((htarget key htargets).symm.trans hfound)
  exact ⟨owner, r, howner, hr, htakes.kind, htargets⟩

/-- Users with categories in a folder, and without. -/
def categories : SchemaDeclaration where
  rootNamespace := none
  models := .ofList [
    ("User", declaredByLines [("blogCategories", "hasMany"), ("name", "string")]),
    ("blog/BlogCategory", declaredByLines [("user", "belongsTo")])]
  migrations := .empty

theorem categories_plural_names_class : singular (plural "BlogCategory") = "BlogCategory" ∧
    ∃ s m owner r, resolve .standard categories = .ok s ∧ s.models.get? "blog/BlogCategory" = some m ∧
      m.className = "BlogCategory" ∧ s.models.get? "User" = some owner ∧ owner.relations.get? "blogCategories" = some r ∧
      r.kind = .hasMany ∧ r.link.targets = ["blog/BlogCategory"] := by
  have h := plural_names_class "BlogCategory" (by decide) (List.all_eq_true.mp (by decide))
  have hrestored : Restored (lastLower "BlogCategory") := by decide +kernel
  have hcapital : ∀ c ∈ "BlogCategory".toList.head?, c.isUpper = true := by
    rintro _ ⟨⟩
    rfl
  have hline : (categories.models.get? "User").any (fun y => (modelDeclaration "User" y).toOption.any fun s =>
      (s.columns.get? "blogCategories").any fun line => line.any fun text =>
        (DeclaredRelation.parse "User" "blogCategories" (.parse text)).toOption.any fun l =>
          l.kind = .hasMany ∧ l.argument? 0 = none) = true := by decide +kernel
  obtain ⟨l, hdeclared, hmodel, hname, hl⟩ := exists_declaredBy_of_any hline
  obtain ⟨hkind, hnone⟩ := of_decide_eq_true hl
  have hcategories : (resolve .standard categories).toOption.any (fun s => (s.models.get? "blog/BlogCategory").any fun m =>
      m.className = "BlogCategory") = true := by decide +kernel
  obtain ⟨s, hs, hp⟩ := exists_resolved_of_any hcategories
  obtain ⟨m, hm, hp⟩ := exists_of_any hp
  have hclass := of_decide_eq_true hp
  have hplural : l.name = plural (String.ofList (lowerFirst "BlogCategory".toList)) := hname.trans (by decide +kernel)
  obtain ⟨_, hmeans⟩ := h.2 l (by simp [hkind, manyKinds]) hplural
  obtain ⟨owner, r, howner, hr, hkept, htargets⟩ :=
    hmeans .standard categories s hs hdeclared hnone hcapital hrestored _ m hm hclass
  exact ⟨h.1.mpr hrestored, s, m, owner, r, hs, hm, hclass, hmodel ▸ howner, hname ▸ hr, hkept.trans hkind, htargets⟩

/-- Two words have one plural, so that one of them does not come back, and its class is not tried first. -/
theorem cache_lost :
    plural "cach" = plural "cache" ∧ "cache" ≠ "" ∧ (∀ c ∈ "cache".toList, c.isAlpha = true) ∧
      String.ofList (lastLower "cache") ∉ irregular.map Prod.snd ∧ singular (plural "cache") ≠ "cache" ∧
      (Convention.modelCandidates .hasMany (plural (String.ofList (lowerFirst "Cache".toList)))).head? ≠ some "Cache" :=
  ⟨by decide +kernel, by decide, List.all_eq_true.mp (by decide), by decide +kernel, by decide +kernel, by decide +kernel⟩

end Resolved

end Schemata
