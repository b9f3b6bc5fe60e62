import Schemata.Proofs.Resolution.Links
import Schemata.Proofs.Resolved.Parents
import Schemata.Proofs.Resolved.References

/-!
# Morph names of a resolved schema

The call of a relation to or from parents passes a name, under which the column pair of a pointer is sought. A relation from one
parent passes the name of the pointer that it is bound to, which is that of the pair only if the line of the pointer names no
other. A relation that is linked through a pivot model passes a name of its own, which may be that of no pointer.
-/

namespace Schemata.Resolved

open Resolution Schemata.Shorthand

variable {settings : Settings} {schema : SchemaDeclaration} {s : Resolved} {k n : String} {m : Model} {r : Relation}

/-- The models of a resolved schema are those at the end of a course, where pointers have the parents that links make known. -/
theorem exists_known_of_resolve (h : resolve settings schema = .ok s) :
    ∃ c : Course (settingsFor settings schema) schema, s.models = c.complete.models ∧ c.complete.Known := by
  obtain ⟨c, hmodels, hchecked⟩ := exists_course_of_resolve h
  exact ⟨c, hmodels, c.known_complete (c.namesDistinct_of_checked (hmodels ▸ hchecked))⟩

/-- The call of a relation has the class of a model as its first argument, and passes a text after it. -/
def Passes (s : Resolved) (k n target text : String) : Prop :=
  ∃ m r reference arguments rest, s.models.get? k = some m ∧ m.relations.get? n = some r ∧ RefersTo s m target reference ∧
    relationCall s k n = .ok ("->".intercalate
      ((⟨r.kind.keyword, .classRef reference :: .string text :: arguments⟩ :: rest).map Method.render))

theorem passes_of_keyArguments (h : resolve settings schema = .ok s) (hm : s.models.get? k = some m)
    (hr : m.relations.get? n = some r) {target text : String} {arguments : List Argument} (hc : classKeys r.link = [target])
    (ha : keyArguments r.name r.link = .string text :: arguments) : Passes s k n target text := by
  obtain ⟨d, e, hd, rfl⟩ := resolve_ok h
  have hrefs : r.link.references ⊆ e.models.keys := by
    rw [show e.models = d.models from hd.models]
    exact ((hd.founded.sound.model k m (hd.models ▸ hm)).relation hr).2.2
  obtain ⟨classes, hclasses, hrefers⟩ := exists_refersTo hd m (List.Subset.trans (classKeys_subset r.link) hrefs)
  obtain ⟨pivots, hpivots, _⟩ := exists_refersTo hd m (List.Subset.trans (pivot_subset r.link) hrefs)
  rw [hc] at hrefers
  obtain ⟨reference, _, hreference, hnil, rfl⟩ := List.forall₂_cons_left_iff.mp hrefers
  obtain rfl := List.forall₂_nil_left_iff.mp hnil
  obtain ⟨rest, hmethods⟩ : ∃ rest, relationMethods (ofDraft e) m r =
      .ok (⟨r.kind.keyword, .classRef reference :: .string text :: arguments⟩ :: rest) := by
    have hmethods := relationMethods_eq hclasses hpivots
    unfold callMethods at hmethods
    rw [ha] at hmethods
    exact ⟨_, hmethods⟩
  refine ⟨m, r, reference, arguments, rest, hm, hr, hreference, ?_⟩
  unfold relationCall model? Model.relation?
  rw [hm]
  refine bind_eq_ok.mpr ⟨m, rfl, ?_⟩
  dsimp only
  rw [hr]
  exact bind_eq_ok.mpr ⟨_, hmethods, rfl⟩

/-! ## From one parent -/

/-- A relation from one parent is bound to a pointer of its target, which has its model as a parent, and its call passes the
name of that pointer. The pair of the pointer has this name only if the pointer's line names no other. -/
theorem bound_pointers_passed (h : resolve settings schema = .ok s) (hm : s.models.get? k = some m)
    (hr : m.relations.get? n = some r) {link : MorphOneOrMany} (hl : r.link = .morphOne link ∨ r.link = .morphMany link) :
    Passes s k n link.model link.relationKey ∧ ∃ target p pointer, ∃ l : DeclaredRelation,
      s.models.get? link.model = some target ∧ target.relations.get? link.relationKey = some p ∧ p.link = .morphTo pointer ∧
      k ∈ pointer.models ∧ DeclaredBy schema l ∧ l.relation = ⟨link.model, link.relationKey⟩ ∧
      pointer.columnName = (l.argument? 0).getD link.relationKey ∧ HasPair target link.relationKey pointer.columnName ∧
      (HasPair target link.relationKey link.relationKey ↔ pointer.columnName = link.relationKey) := by
  have hpasses : Passes s k n link.model link.relationKey := by
    rcases hl with hl | hl
    all_goals exact passes_of_keyArguments h hm hr (by rw [hl]; rfl) (by rw [hl]; rfl)
  obtain ⟨c, hmodels, hknown⟩ := exists_known_of_resolve h
  rw [hmodels] at hm ⊢
  obtain ⟨target, p, pointer, htarget, hp, hpl, hmem⟩ := c.exists_bound hknown hm hr hl
  obtain ⟨l, shape, hpaired, hmodel, hname⟩ := c.exists_paired htarget hp hpl
  have hpair : HasPair target link.relationKey pointer.columnName := hname ▸ hpaired.hasPair
  refine ⟨hpasses, target, p, pointer, l, htarget, hp, hpl, hmem, c.declaredBy hpaired.declares,
    congrArg₂ RelationName.mk hmodel hname, hname ▸ hpaired.columnName, hpair, fun hown => hown.name_eq hpair, fun heq => ?_⟩
  exact heq ▸ hpair

theorem blog_bound_pointers_passed : ∃ s target p pointer, resolve .standard blog = .ok s ∧
    Passes s "User" "avatar" "Image" "owner" ∧ s.models.get? "Image" = some target ∧
    target.relations.get? "owner" = some p ∧ p.link = .morphTo pointer ∧ "User" ∈ pointer.models ∧
    HasPair target "owner" "imageable" ∧ ¬HasPair target "owner" "owner" := by
  have hblog : (resolve .standard blog).toOption.any (fun s => (s.models.get? "User").any fun m =>
      ((m.relations.get? "avatar").any fun r => r.link = .morphOne ⟨"Image", "owner"⟩) ∧
      (s.models.get? "Image").any fun target => (target.relations.get? "owner").any fun p =>
        p.morphTo?.any (·.columnName = "imageable")) = true := by decide +kernel
  obtain ⟨s, h, hs⟩ := exists_resolved_of_any hblog
  obtain ⟨m, hm, hp⟩ := exists_of_any hs
  obtain ⟨havatar, himage⟩ := of_decide_eq_true hp
  obtain ⟨r, hr, hl⟩ := exists_of_any havatar
  obtain ⟨target, htarget, howner⟩ := exists_of_any himage
  obtain ⟨p, hp, hname⟩ := exists_of_any howner
  obtain ⟨pointer, hpointer, hname⟩ := exists_of_any hname
  have hname := of_decide_eq_true hname
  obtain ⟨hpasses, target', p', pointer', _, htarget', hp', hpl', hmem, _, _, _, hpair, hown⟩ :=
    bound_pointers_passed h hm hr (.inl (of_decide_eq_true hl))
  obtain rfl := Option.some_inj.mp (htarget.symm.trans htarget')
  obtain rfl := Option.some_inj.mp (hp.symm.trans hp')
  obtain rfl := Option.some_inj.mp (hpointer.symm.trans (Relation.morphTo?_eq_some_iff.mpr hpl'))
  rw [hname] at hpair hown
  exact ⟨s, target, p, pointer, h, hpasses, htarget, hp, hpl', hmem, hpair, fun h => absurd (hown.mp h) (by decide)⟩

/-- A pointer whose pair has a name of its own. -/
def gallery : SchemaDeclaration where
  rootNamespace := none
  models := .ofList [("Image", declaredByLines [("owner", "morphTo:imageable"), ("url", "string")]),
    ("User", declaredByLines [("name", "string"), ("avatar", "morphOne:Image")])]
  migrations := .empty

theorem gallery_passes_other_name : ∃ s m r target, resolve .standard gallery = .ok s ∧ s.models.get? "User" = some m ∧
    m.relations.get? "avatar" = some r ∧ r.link = .morphOne ⟨"Image", "owner"⟩ ∧
    relationCall s "User" "avatar" = .ok "morphOne(Image::class, 'owner')" ∧ s.models.get? "Image" = some target ∧
    "owner_type" ∉ target.physicalNames ∧ "owner_id" ∉ target.physicalNames := by
  have hgallery : (resolve .standard gallery).toOption.any (fun s =>
      (relationCall s "User" "avatar").toOption = some "morphOne(Image::class, 'owner')" ∧
      ((s.models.get? "Image").any fun target =>
        "owner_type" ∉ target.physicalNames ∧ "owner_id" ∉ target.physicalNames) ∧
      (s.models.get? "User").any fun m => (m.relations.get? "avatar").any fun r =>
        r.link = .morphOne ⟨"Image", "owner"⟩) = true := by decide +kernel
  obtain ⟨s, h, hs⟩ := exists_resolved_of_any hgallery
  obtain ⟨hcall, himage, huser⟩ := of_decide_eq_true hs
  obtain ⟨target, htarget, hnames⟩ := exists_of_any himage
  obtain ⟨m, hm, havatar⟩ := exists_of_any huser
  obtain ⟨r, hr, hl⟩ := exists_of_any havatar
  exact ⟨s, m, r, target, h, hm, hr, of_decide_eq_true hl, ok_of_toOption hcall, htarget, of_decide_eq_true hnames⟩

/-! ## To or from many parents -/

theorem classKeys_of_morphs {owner parent related : String} {link : MorphToMany} {l : Link}
    (h : Morphs owner link l parent related) (name : String) :
    ∃ arguments, classKeys l = [link.model] ∧ keyArguments name l = .string link.relationKey :: arguments := by
  cases h <;> exact ⟨_, rfl, rfl⟩

/-- The pivot model of a relation to or from many parents belongs to the side that is not replaced, and has a pointer. The call
passes the name that the relation's line gives, or else the one that follows from the class of that side. If the pair of a
pointer has this name, the other side is a parent; but no pointer needs to have it. -/
theorem morph_pivots_passed (h : resolve settings schema = .ok s) (hm : s.models.get? k = some m)
    (hr : m.relations.get? n = some r) {link : MorphToMany} {parent related key : String}
    (hl : Morphs k link r.link parent related) (hp : link.pivot = some key) :
    Passes s k n link.model link.relationKey ∧
    (∃ o, ∃ l : DeclaredRelation, DeclaredBy schema l ∧ l.relation = ⟨k, n⟩ ∧ s.models.get? related = some o ∧
      link.relationKey = (l.argument? 1).getD (Convention.morphName o.className)) ∧
    ∃ pivot, s.models.get? key = some pivot ∧ pivot.isPivot = true ∧
      (∃ place link', BelongsAt pivot place link' ∧ link'.model = related) ∧
      (∃ place p pointer, pivot.relations.get? place = some p ∧ p.link = .morphTo pointer) ∧
      ∀ place p pointer, pivot.relations.get? place = some p → p.link = .morphTo pointer →
        (∃ l : DeclaredRelation, DeclaredBy schema l ∧ l.relation = ⟨key, place⟩ ∧
          pointer.columnName = (l.argument? 0).getD place) ∧
        HasPair pivot place pointer.columnName ∧ (HasPair pivot place link.relationKey → parent ∈ pointer.models) := by
  have hpasses : Passes s k n link.model link.relationKey := by
    obtain ⟨arguments, hclasses, harguments⟩ := classKeys_of_morphs hl r.name
    exact passes_of_keyArguments h hm hr hclasses harguments
  obtain ⟨c, hmodels, hknown⟩ := exists_known_of_resolve h
  rw [hmodels] at hm ⊢
  obtain ⟨l, o, hdeclares, hmodel, hname, hclaimed, ho, hkey⟩ := c.exists_morphed hm hr hl
  obtain ⟨pivot, hpivot, hpointer, hsides⟩ := c.exists_pivot hm hr (hl.pivot?.trans hp)
  obtain ⟨hrelated, hneeds⟩ := hl.pivotSides
  refine ⟨hpasses, ⟨o, l, c.declaredBy hdeclares, congrArg₂ RelationName.mk hmodel hname, ho, hkey⟩, pivot, hpivot,
    hclaimed key hp pivot hpivot, hsides related (hrelated ▸ List.mem_singleton_self _), hpointer hneeds,
    fun place p pointer hplace hpl => ?_⟩
  obtain ⟨l', shape, hpaired, hmodel', hname'⟩ := c.exists_paired hpivot hplace hpl
  have hpair : HasPair pivot place pointer.columnName := hname' ▸ hpaired.hasPair
  refine ⟨⟨l', c.declaredBy hpaired.declares, congrArg₂ RelationName.mk hmodel' hname', hname' ▸ hpaired.columnName⟩, hpair,
    fun hown => ?_⟩
  exact (hknown.parents (Draft.relation?_eq_some_iff.mpr ⟨pivot, hpivot, hplace⟩) hpl).mpr
    ⟨k, n, r, Draft.relation?_eq_some_iff.mpr ⟨m, hm, hr⟩, hl.parent? hp (hpair.name_eq hown)⟩

theorem tagged_morph_pivots_passed : ∃ s pivot p pointer, resolve .standard tagged = .ok s ∧
    Passes s "Post" "tags" "Tag" "taggable" ∧ s.models.get? "Tagging" = some pivot ∧ pivot.isPivot = true ∧
    (∃ place link, BelongsAt pivot place link ∧ link.model = "Tag") ∧ pivot.relations.get? "subject" = some p ∧
    p.link = .morphTo pointer ∧ HasPair pivot "subject" "taggable" ∧ "Post" ∈ pointer.models := by
  have htagged : (resolve .standard tagged).toOption.any (fun s => (s.models.get? "Post").any fun m =>
      ((m.relations.get? "tags").any fun r =>
        r.link = .morphToMany ⟨"Tag", "taggable", some "Tagging", "taggings", []⟩) ∧
      (s.models.get? "Tagging").any fun pivot => (pivot.relations.get? "subject").any fun p =>
        p.morphTo?.any (·.columnName = "taggable")) = true := by decide +kernel
  obtain ⟨s, h, hs⟩ := exists_resolved_of_any htagged
  obtain ⟨m, hm, hp⟩ := exists_of_any hs
  obtain ⟨htags, htagging⟩ := of_decide_eq_true hp
  obtain ⟨r, hr, hl⟩ := exists_of_any htags
  obtain ⟨pivot, hpivot, hsubject⟩ := exists_of_any htagging
  obtain ⟨p, hp, hname⟩ := exists_of_any hsubject
  obtain ⟨pointer, hpointer, hname⟩ := exists_of_any hname
  have hpl := Relation.morphTo?_eq_some_iff.mp hpointer
  have hmorphs : Morphs "Post" ⟨"Tag", "taggable", some "Tagging", "taggings", []⟩ r.link "Post" "Tag" :=
    of_decide_eq_true hl ▸ .toMany
  obtain ⟨hpasses, _, pivot', hpivot', hisPivot, hbelongs, _, hpointers⟩ := morph_pivots_passed h hm hr hmorphs rfl
  obtain rfl := Option.some_inj.mp (hpivot.symm.trans hpivot')
  obtain ⟨_, hpair, hparent⟩ := hpointers "subject" p pointer hp hpl
  rw [of_decide_eq_true hname] at hpair
  exact ⟨s, pivot, p, pointer, h, hpasses, hpivot, hisPivot, hbelongs, hp, hpl, hpair, hparent hpair⟩

/-- A pivot model whose pointer has a parent, though not by the name of the relation that it links. -/
def labelled : SchemaDeclaration where
  rootNamespace := none
  models := .ofList [
    ("Post", declaredByLines [("title", "string"), ("tags", "morphToMany:Tag using:Tagging")]),
    ("Tag", declaredByLines [("label", "string")]),
    ("Tagging", declaredByLines [("tag", "belongsTo"), ("subject", "morphTo")]),
    ("Video", declaredByLines [("title", "string"), ("marks", "morphMany:Tagging")])]
  migrations := .empty

theorem labelled_passes_no_pointer : ∃ s m r link pivot, resolve .standard labelled = .ok s ∧
    s.models.get? "Post" = some m ∧ m.relations.get? "tags" = some r ∧ r.link = .morphToMany link ∧
    link.pivot = some "Tagging" ∧ link.relationKey = "taggable" ∧
    relationCall s "Post" "tags" = .ok "morphToMany(Tag::class, 'taggable', 'taggings')->using(Tagging::class)" ∧
    s.models.get? "Tagging" = some pivot ∧
    (∀ x ∈ pivot.morphToRelations, x.2.columnName ≠ link.relationKey ∧ "Post" ∉ x.2.models) ∧
    "taggable_type" ∉ pivot.physicalNames ∧ "taggable_id" ∉ pivot.physicalNames := by
  have hlabelled : (resolve .standard labelled).toOption.any (fun s =>
      (relationCall s "Post" "tags").toOption =
        some "morphToMany(Tag::class, 'taggable', 'taggings')->using(Tagging::class)" ∧
      ((s.models.get? "Tagging").any fun pivot =>
        (∀ x ∈ pivot.morphToRelations, x.2.columnName ≠ "taggable" ∧ "Post" ∉ x.2.models) ∧
        "taggable_type" ∉ pivot.physicalNames ∧ "taggable_id" ∉ pivot.physicalNames) ∧
      (s.models.get? "Post").any fun m => (m.relations.get? "tags").any fun r =>
        r.link = .morphToMany ⟨"Tag", "taggable", some "Tagging", "taggings", []⟩) = true := by decide +kernel
  obtain ⟨s, h, hs⟩ := exists_resolved_of_any hlabelled
  obtain ⟨hcall, htagging, hpost⟩ := of_decide_eq_true hs
  obtain ⟨pivot, hpivot, hp⟩ := exists_of_any htagging
  obtain ⟨hpointers, hnames⟩ := of_decide_eq_true hp
  obtain ⟨m, hm, htags⟩ := exists_of_any hpost
  obtain ⟨r, hr, hl⟩ := exists_of_any htags
  exact ⟨s, m, r, _, pivot, h, hm, hr, of_decide_eq_true hl, rfl, rfl, ok_of_toOption hcall, hpivot, hpointers, hnames⟩

end Schemata.Resolved
