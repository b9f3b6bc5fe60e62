import Schemata.Proofs.Resolution.Pointers
import Schemata.Proofs.Resolved.Basic

/-!
# Pointers of a resolved schema

The parents of a `morphTo` are told apart in one way, which decides the type of its column pair.
-/

namespace Schemata.Resolved

open Resolution

variable {settings : Settings} {schema : SchemaDeclaration} {s : Resolved}

/-- The type of a column pair, by whether it may be null and whether it holds UUIDs. -/
inductive PairType : Bool → Bool → String → Prop
  | nullableUuid : PairType true true "nullableUuidMorphs"
  | nullable : PairType true false "nullableMorphs"
  | uuid : PairType false true "uuidMorphs"
  | plain : PairType false false "morphs"

theorem pairType_morphType (nullable uuid : Bool) : PairType nullable uuid (morphType nullable uuid) := by
  cases nullable <;> cases uuid <;> constructor

theorem PairType.unique {nullable uuid : Bool} {type type' : String} (h : PairType nullable uuid type)
    (h' : PairType nullable uuid type') : type = type' := by
  cases h <;> cases h' <;> rfl

/-- The column pair in the place of a pointer: its type follows from the line and from the keys of the parents, its qualifiers
are those of the line but for `nullable` and the first comment, which has a place of its own. -/
structure IsPair (l : DeclaredRelation) (link : MorphTo) (shape : KeyShape) (column : Column) : Prop where
  pointer : link.columnName = (l.argument? 0).getD l.name
  name : column.name = link.columnName
  type : PairType (l.columnMethods.has "nullable") shape.uuid column.type
  arguments : column.arguments = []
  methods : column.methods.methods =
    (l.columnMethods.methods.filter (·.name != "nullable")).eraseP (·.name == "comment")
  comment : column.comment = (l.columnMethods.find? "comment").bind (·.value? 0)

theorem isPair_of_paired {c : Course settings schema} {l : DeclaredRelation} {link : MorphTo} {shape : KeyShape} {m : Model}
    (h : c.Paired l link shape m) : ∃ column, m.columns.get? l.name = some column ∧ IsPair l link shape column := by
  obtain ⟨column, hcolumn, hu⟩ := h.column
  rw [morphColumn_eq] at hu
  refine ⟨column, hcolumn, h.columnName, congrArg Column.name hu, ?_, congrArg Column.arguments hu,
    congrArg (·.methods.methods) hu, congrArg Column.comment hu⟩
  have htype : column.type = morphType link.nullable shape.uuid := congrArg Column.type hu
  rw [htype, ← h.nullable]
  exact pairType_morphType link.nullable shape.uuid

/-- A `morphTo` of a resolved schema has distinct parents whose keys are alike, as numbers that the database assigns or as
UUIDs, and in its place the column pair that follows. A schema whose parents are not alike does not resolve. -/
theorem parents_alike (settings : Settings) (schema : SchemaDeclaration) :
    (∀ s, resolve settings schema = .ok s → ∀ k n m r link, s.models.get? k = some m → m.relations.get? n = some r →
      r.link = .morphTo link → link.models.Nodup ∧ ∃ l shape column, DeclaredBy schema l ∧ l.model = k ∧ l.name = n ∧
        Agree s.models link.models shape ∧ m.columns.get? n = some column ∧ IsPair l link shape column) ∧
    ∀ d, Completes parentPasses (.start (settingsFor settings schema) schema) d →
      ∀ k n m r link, d.models.get? k = some m → m.relations.get? n = some r → r.link = .morphTo link →
        (∀ shape, ¬Agree d.models link.models shape) → ∃ fault, resolve settings schema = .error fault := by
  constructor
  · intro s h k n m r link hm hr hl
    obtain ⟨c, hmodels, _⟩ := exists_course_of_resolve h
    rw [hmodels] at hm ⊢
    obtain ⟨l, shape, hpaired, rfl, rfl⟩ := c.exists_paired hm hr hl
    obtain ⟨column, hcolumn, hpair⟩ := isPair_of_paired hpaired
    have hnodup : r.link.parents.Nodup := (c.founded.sound.model l.model m hm).parents hr
    rw [hl] at hnodup
    exact ⟨hnodup, l, shape, column, c.declaredBy hpaired.declares, rfl, rfl, hpaired.agree, hcolumn, hpair⟩
  · intro d hd k n m r link hm hr hl hshape
    cases h : resolve settings schema with
    | error fault => exact ⟨fault, rfl⟩
    | ok s =>
      obtain ⟨c, _, _⟩ := exists_course_of_resolve h
      obtain rfl : d = c.pivoted := hd.unique c.completes_pivoted
      obtain ⟨m', hm', _⟩ := c.edited_complete.model hm
      rw [← c.edited_complete.relations (by decide) hm hm'] at hr
      obtain ⟨l, shape, hpaired, _, _⟩ := c.exists_paired hm' hr hl
      exact absurd ((Agree.of_edited c.edited_complete (by decide)).mpr hpaired.agree) (hshape shape)

/-- Pointers that may be null and pointers that may not, to numbers and to UUIDs. -/
def album : SchemaDeclaration where
  rootNamespace := none
  models := .ofList [
    ("User", declaredByLines [("avatar", "morphOne:Image"), ("remark", "morphOne:Remark")]),
    ("Team", declaredByLines [("uuid", ""), ("badge", "morphOne:Badge"), ("label", "morphOne:Label")]),
    ("Image", declaredByLines [("owner", "morphTo nullable")]),
    ("Remark", declaredByLines [("owner", "morphTo")]),
    ("Badge", declaredByLines [("owner", "morphTo nullable")]),
    ("Label", declaredByLines [("owner", "morphTo")])]
  migrations := .empty

/-- Its pointers, each with the parent, whether it may be null, the keys of the parent and the type of the pair. -/
def albumPointers : List (String × String × Bool × KeyShape × String) :=
  [("Image", "User", true, ⟨true, false⟩, "nullableMorphs"), ("Remark", "User", false, ⟨true, false⟩, "morphs"),
    ("Badge", "Team", true, ⟨false, true⟩, "nullableUuidMorphs"), ("Label", "Team", false, ⟨false, true⟩, "uuidMorphs")]

/-- Two parents of one pointer, one with a number and one with a UUID. -/
def mixed : SchemaDeclaration where
  rootNamespace := none
  models := .ofList [
    ("User", declaredByLines [("avatar", "morphOne:Image")]),
    ("Post", declaredByLines [("uuid", ""), ("cover", "morphOne:Image")]),
    ("Image", declaredByLines [("owner", "morphTo"), ("url", "string")])]
  migrations := .empty

theorem album_parents_alike :
    (∃ s, resolve .standard album = .ok s ∧
      ∀ k parent nullable shape type, (k, parent, nullable, shape, type) ∈ albumPointers → ∃ m link column,
        s.models.get? k = some m ∧ (m.relations.get? "owner").bind Relation.morphTo? = some link ∧ link.models = [parent] ∧
        link.models.Nodup ∧ Agree s.models link.models shape ∧ m.columns.get? "owner" = some column ∧
        column.name = "owner" ∧ column.type = type) ∧
    ∃ fault, resolve .standard mixed = .error fault := by
  constructor
  · have hlines : ∀ x ∈ albumPointers, (album.models.get? x.1).any (fun y => (modelDeclaration x.1 y).toOption.any fun s =>
        (s.columns.get? "owner").any fun line => line.any fun text =>
          (DeclaredRelation.parse x.1 "owner" (.parse text)).toOption.any fun l =>
            l.columnMethods.has "nullable" = x.2.2.1 ∧ l.argument? 0 = none) = true := by decide +kernel
    have htypes : ∀ x ∈ albumPointers, PairType x.2.2.1 x.2.2.2.1.uuid x.2.2.2.2 := by
      simp only [albumPointers, List.forall_mem_cons]
      exact ⟨.nullable, .plain, .nullableUuid, .uuid, nofun⟩
    have halbum : (resolve .standard album).toOption.any (fun s => ∀ x ∈ albumPointers, (s.models.get? x.1).any fun m =>
        ((m.relations.get? "owner").any fun r => r.morphTo?.any fun link =>
          r.link = .morphTo link ∧ link.models = [x.2.1]) ∧
        (s.models.get? x.2.1).all (KeyShape.of · = x.2.2.2.1)) = true := by decide +kernel
    obtain ⟨s, h, hs⟩ := exists_resolved_of_any halbum
    refine ⟨s, h, fun k parent nullable shape type hx => ?_⟩
    obtain ⟨m, hm, hp⟩ := exists_of_any (of_decide_eq_true hs _ hx)
    obtain ⟨howner, hkeys⟩ := of_decide_eq_true hp
    obtain ⟨r, hr, hl⟩ := exists_of_any howner
    obtain ⟨link, hlink, hl⟩ := exists_of_any hl
    obtain ⟨hl, hmodels⟩ := of_decide_eq_true hl
    obtain ⟨hnodup, l, shape', column, hdeclared, hmodel, hname, hagree, hcolumn, hpair⟩ :=
      (parents_alike .standard album).1 s h k "owner" m r link hm hr hl
    obtain ⟨l', hdeclared', hmodel', hname', hline⟩ := exists_declaredBy_of_any (hlines _ hx)
    obtain rfl : l' = l := hdeclared.unique hdeclared' (hmodel'.trans hmodel.symm) (hname'.trans hname.symm)
    obtain ⟨hnullable, hargument⟩ := of_decide_eq_true hline
    obtain ⟨u, hu, hshape⟩ := hagree.shape parent (by simp [hmodels])
    rw [hu] at hkeys
    obtain rfl : shape' = shape := hshape.symm.trans (of_decide_eq_true hkeys)
    have htype := hpair.type
    rw [hnullable] at htype
    have hnamed : column.name = "owner" := by rw [hpair.name, hpair.pointer, hargument, hname, Option.getD_none]
    exact ⟨m, link, column, hm, by rw [hr]; exact hlink, hmodels, hnodup, hagree, hcolumn, hnamed, htype.unique (htypes _ hx)⟩
  · have hfault : (runAll parentPasses (.start (settingsFor .standard mixed) mixed)).fault.isNone = true := by decide +kernel
    have hrun : runAll parentPasses (.start (settingsFor .standard mixed) mixed) =
        ⟨(runAll parentPasses (.start (settingsFor .standard mixed) mixed)).progress, none⟩ := by
      rw [← Option.isNone_iff_eq_none.mp hfault]
    have himage : ((runAll parentPasses (.start (settingsFor .standard mixed) mixed)).progress.draft.models.get? "Image").any
        (fun m => (m.relations.get? "owner").any fun r => r.morphTo?.any fun link =>
          r.link = .morphTo link ∧ link.models = ["User", "Post"]) = true := by decide +kernel
    have hshapes : ["User", "Post"].map (fun key =>
        ((runAll parentPasses (.start (settingsFor .standard mixed) mixed)).progress.draft.models.get? key).map KeyShape.of) =
          [some ⟨true, false⟩, some ⟨false, true⟩] := by decide +kernel
    obtain ⟨m, hm, howner⟩ := exists_of_any himage
    obtain ⟨r, hr, hl⟩ := exists_of_any howner
    obtain ⟨link, _, hl⟩ := exists_of_any hl
    obtain ⟨hl, hmodels⟩ := of_decide_eq_true hl
    refine (parents_alike .standard mixed).2 _ (runAll_none hrun).1 "Image" "owner" m r link hm hr hl fun shape hagree => ?_
    obtain ⟨u, hu, hushape⟩ := hagree.shape "User" (by simp [hmodels])
    obtain ⟨p, hp, hpshape⟩ := hagree.shape "Post" (by simp [hmodels])
    simp only [List.map_cons, List.map_nil, hu, hp, Option.map_some, hushape, hpshape, List.cons.injEq,
      Option.some_inj] at hshapes
    exact absurd (hshapes.1.symm.trans hshapes.2.1) (by decide)

end Schemata.Resolved
