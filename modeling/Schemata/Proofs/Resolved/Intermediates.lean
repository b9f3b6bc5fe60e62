import Schemata.Proofs.Resolution.Intermediates
import Schemata.Proofs.Resolved.Arguments
import Schemata.Proofs.Resolved.Inverses

/-!
# Models between in a resolved schema

Where neither the line nor the name of a through relation says through which model it goes, it is the first model that links the two
ends, in the order of the relation lines of its target. It need not be the only one.
-/

namespace Schemata.Resolved

open Resolution Convention

variable {settings : Settings} {schema : SchemaDeclaration} {s : Resolved}

/-- By the first of its relation lines that leads on to the owner, a model belongs to one that belongs to the owner. -/
def LeadsFirst (s : Resolved) (schema : SchemaDeclaration) (m : Model) (owner through : String) : Prop :=
  ∃ y declaration before name after link, schema.models.get? m.key = some y ∧ modelDeclaration m.key y = .ok declaration ∧
    relationLines declaration = before ++ (name, .belongsTo) :: after ∧ BelongsAt m name link ∧ link.model = through ∧
    s.Belongs through owner ∧ ∀ line ∈ before, ∀ other, BelongsAt m line.1 other → ¬s.Belongs other.model owner

theorem belongs_iff {source target : String} :
    ((s.models.get? source).any fun m => (m.belongsTo? target).isSome) = true ↔ s.Belongs source target := by
  constructor
  · intro h
    obtain ⟨m, hm, hsome⟩ := exists_of_any h
    obtain ⟨place, link, hplace, hmodel⟩ := exists_belongsAt hsome
    exact ⟨m, place, link, hm, hplace, hmodel⟩
  · rintro ⟨m, place, link, hm, ⟨r, hr, hlink⟩, hmodel⟩
    rw [hm, Option.any_some]
    refine List.find?_isSome.mpr ⟨link, List.mem_map_of_mem (mem_belongsToRelations.mpr ⟨place, hr, hlink⟩), ?_⟩
    exact beq_iff_eq.mpr hmodel

/-- A through relation that is left to guess its model between goes through the first model that links its target to its own model:
the target belongs to it by the first of its relation lines that leads on. -/
theorem goes_through_first (h : resolve settings schema = .ok s) {l : DeclaredRelation} (hline : DeclaredBy schema l)
    (hkind : l.kind ∈ [RelationKind.hasOneThrough, .hasManyThrough]) (hopen : l.argument? 1 = none)
    (hname : l.argument? 0 = none → ∀ pair ∈ throughCandidates l.name,
      s.findModel? pair.1 = none ∨ s.findModel? pair.2 = none) :
    ∃ m r link target, s.models.get? l.model = some m ∧ m.relations.get? l.name = some r ∧ r.kind = l.kind ∧
      (r.link = .hasOneThrough link ∨ r.link = .hasManyThrough link) ∧ s.models.get? link.model = some target ∧
      LeadsFirst s schema target l.model link.through := by
  obtain ⟨c, hmodels, _⟩ := exists_course_of_resolve h
  obtain ⟨y, declaration, text, hy, hread, htext, hparse⟩ := id hline
  obtain ⟨m, r, hm, hr, hrk, _⟩ :=
    exists_relation_of_line c ⟨y, declaration, hy, hread, htext⟩ (DeclaredRelation.parse_ok hparse).kind
  obtain ⟨link, hlink⟩ := Relation.exists_through (hrk ▸ hkind)
  obtain ⟨l', hl', hmodel, hplace, hbetween⟩ := c.exists_between hm hr hlink
  obtain rfl := hline.unique (c.declaredBy hl') hmodel hplace
  rw [findModel?_eq hmodels] at hname
  obtain ⟨target, first, htarget, hfound, hthrough⟩ :=
    exists_of_intermediate (hbetween hopen fun hfirst => pairByName?_eq_none_iff.mpr (hname hfirst))
  rw [← hmodels] at hfound htarget hm
  obtain ⟨y', declaration', before, name, after, hy', hread', hlines, hbelongs, hleads, hbefore⟩ :=
    exists_line_of_found c (hmodels ▸ htarget) hfound
  refine ⟨m, r, link, target, hm, hr, hrk, hlink, htarget, y', declaration', before, name, after, first, hy', hread', hlines,
    hbelongs, hthrough, hthrough ▸ belongs_iff.mp hleads, fun line hl other hother hno => ?_⟩
  rw [← belongs_iff, hbefore line hl other hother] at hno
  cases hno

/-- Posts below each other, of a category and of a user. Only the users are of a country. -/
def journal : SchemaDeclaration where
  rootNamespace := none
  models := .ofList [
    ("Country", declaredByLines [("name", "string"), ("posts", "hasManyThrough")]),
    ("User", declaredByLines [("country", "belongsTo")]),
    ("Category", declaredByLines [("label", "string")]),
    ("Post", declaredByLines [("parent", "belongsTo:Post"), ("category", "belongsTo"), ("user", "belongsTo")])]
  migrations := .empty

theorem journal_goes_through_first : ∃ s r link target, resolve .standard journal = .ok s ∧ throughCandidates "posts" = [] ∧
    (s.models.get? "Country").bind (·.relations.get? "posts") = some r ∧ r.link = .hasManyThrough link ∧
    s.models.get? "Post" = some target ∧ LeadsFirst s journal target "Country" "User" := by
  have hline : (journal.models.get? "Country").any (fun y => (modelDeclaration "Country" y).toOption.any fun s =>
      (s.columns.get? "posts").any fun line => line.any fun text =>
        (DeclaredRelation.parse "Country" "posts" (.parse text)).toOption.any fun l =>
          l.kind = .hasManyThrough ∧ l.argument? 1 = none) = true := by decide +kernel
  have hjournal : (resolve .standard journal).toOption.any (fun s => (s.models.get? "Country").any fun m =>
      (m.relations.get? "posts").any fun r => r.link = .hasManyThrough ⟨"Post", "User", none, none⟩) = true := by decide +kernel
  have hnames : throughCandidates "posts" = [] := by decide +kernel
  obtain ⟨l, hdeclared, hmodel, hname, hl⟩ := exists_declaredBy_of_any hline
  obtain ⟨hkind, hopen⟩ := of_decide_eq_true hl
  obtain ⟨s, h, hs⟩ := exists_resolved_of_any hjournal
  obtain ⟨m, hm, hs⟩ := exists_of_any hs
  obtain ⟨r, hr, hlink⟩ := exists_of_any hs
  have hlink := of_decide_eq_true hlink
  obtain ⟨m', r', link, target, hm', hr', _, hlink', htarget, hleads⟩ :=
    goes_through_first h hdeclared (by simp [hkind]) hopen (by simp [hname, hnames])
  rw [hmodel] at hm' hleads
  obtain rfl := Option.some_inj.mp (hm.symm.trans hm')
  rw [hname] at hr'
  obtain rfl := Option.some_inj.mp (hr.symm.trans hr')
  obtain rfl : link = ⟨"Post", "User", none, none⟩ := by
    rcases hlink' with hlink' | hlink' <;> cases hlink.symm.trans hlink'
    rfl
  exact ⟨s, r, _, target, h, hnames, by rw [hm]; exact hr, hlink, htarget, hleads⟩

/-- Users and teams are both of a country, and posts of both. -/
def newspaper : SchemaDeclaration where
  rootNamespace := none
  models := .ofList [
    ("Country", declaredByLines [("name", "string"), ("posts", "hasManyThrough")]),
    ("User", declaredByLines [("country", "belongsTo")]),
    ("Team", declaredByLines [("country", "belongsTo")]),
    ("Post", declaredByLines [("user", "belongsTo"), ("team", "belongsTo")])]
  migrations := .empty

/-- Two models link the posts to their country, and the first of them is taken. -/
theorem newspaper_goes_through_either : ∃ s, resolve .standard newspaper = .ok s ∧ throughCandidates "posts" = [] ∧
    HasLink s "Country" (.hasManyThrough ⟨"Post", "User", none, none⟩) ∧
    (s.Belongs "Post" "User" ∧ s.Belongs "User" "Country") ∧ s.Belongs "Post" "Team" ∧ s.Belongs "Team" "Country" := by
  have hnewspaper : (resolve .standard newspaper).toOption.any (fun s =>
      ((s.models.get? "Country").any fun m => (m.relations.get? "posts").any fun r =>
        r.link = .hasManyThrough ⟨"Post", "User", none, none⟩) ∧
      ∀ x ∈ [("Post", "User"), ("User", "Country"), ("Post", "Team"), ("Team", "Country")],
        ((s.models.get? x.1).any fun m => (m.belongsTo? x.2).isSome) = true) = true := by decide +kernel
  obtain ⟨s, h, hs⟩ := exists_resolved_of_any hnewspaper
  obtain ⟨hposts, hlinks⟩ := of_decide_eq_true hs
  obtain ⟨m, hm, hs⟩ := exists_of_any hposts
  obtain ⟨r, hr, hlink⟩ := exists_of_any hs
  have hbelongs : ∀ x ∈ [("Post", "User"), ("User", "Country"), ("Post", "Team"), ("Team", "Country")], s.Belongs x.1 x.2 :=
    fun x hx => belongs_iff.mp (hlinks x hx)
  exact ⟨s, h, by decide +kernel, ⟨m, "posts", r, hm, hr, of_decide_eq_true hlink⟩,
    ⟨hbelongs ("Post", "User") (by simp), hbelongs ("User", "Country") (by simp)⟩,
    hbelongs ("Post", "Team") (by simp), hbelongs ("Team", "Country") (by simp)⟩

end Schemata.Resolved
