import Schemata.Proofs.Relation.Lines
import Schemata.Proofs.Resolution.Targets
import Schemata.Proofs.Resolved.Pointers

/-!
# Qualifiers of relation lines

Where the qualifiers of a `belongsTo` or `morphTo` line are in the end: those of a column at the key column that is made for the
line, the others at the relation.
-/

namespace Schemata

open Schemata.Shorthand

/-- The qualifiers of a column say whether it may be null, how it is indexed, what it refers to and what it is for. -/
theorem contains_columnQualifiers_iff {name : String} : columnQualifiers.contains name = true ↔
    name ∈ ["nullable", "index", "unique", "constrained", "cascadeOnDelete", "cascadeOnUpdate", "nullOnDelete",
      "restrictOnDelete", "comment"] :=
  List.contains_iff_mem

/-- A line whose relation rests on a column splits its qualifiers in two, and keeps the order of both. -/
theorem DeclaredRelation.parse_qualifiers {model name : String} {call : Call} {l : DeclaredRelation}
    (h : parse model name call = .ok l) (hk : l.kind.needsColumn = true) :
    l.columnMethods.methods = call.methods.tail.filter (columnQualifiers.contains ·.name) ∧
      l.methods.methods = call.methods.tail.filter (!columnQualifiers.contains ·.name) := by
  obtain ⟨kind, arguments, rest, rfl⟩ := exists_chain_of_parse_ok h
  obtain ⟨haccepted, rfl⟩ := parse_ok_iff.mp h
  obtain ⟨hcolumn, hmethods, _⟩ := (placed_ofChain haccepted).ofColumn hk
  exact ⟨hcolumn, hmethods⟩

namespace Column

/-- A built column takes the first comment of its qualifiers, and has the others in its chain. -/
theorem qualifiers_ofCall_single {method : String} (h : method ≠ "comment") (name : String) (arguments : List Argument)
    (qualifiers : Call) : (ofCall name (.single method arguments ++ qualifiers)).methods = qualifiers.remove "comment" ∧
      (ofCall name (.single method arguments ++ qualifiers)).comment = (qualifiers.find? "comment").bind (·.value? 0) := by
  have hremove : (Call.single method arguments ++ qualifiers).remove "comment" =
      ⟨⟨method, arguments⟩ :: qualifiers.methods.eraseP (·.name == "comment")⟩ :=
    congrArg Call.mk (List.eraseP_cons_of_neg (by simpa using h))
  have hfind : (Call.single method arguments ++ qualifiers).find? "comment" = qualifiers.find? "comment" :=
    List.find?_cons_of_neg (by simpa using h)
  unfold ofCall
  rw [hremove, hfind]
  exact ⟨rfl, rfl⟩

/-- A builder that passes for a comment leaves its place to the first qualifier. -/
theorem type_ofCall_comment (name : String) (arguments : List Argument) (qualifiers : Call) :
    (ofCall name (.single "comment" arguments ++ qualifiers)).type = (qualifiers.first?.getD (.bare "")).name ∧
      (ofCall name (.single "comment" arguments ++ qualifiers)).methods = qualifiers.tail := by
  have hremove : (Call.single "comment" arguments ++ qualifiers).remove "comment" = qualifiers :=
    congrArg Call.mk (List.eraseP_cons_of_pos rfl)
  unfold ofCall
  rw [hremove]
  exact ⟨rfl, rfl⟩

end Column

namespace Resolved

open Resolution

variable {settings : Settings} {schema : SchemaDeclaration} {s : Resolved}

/-- A column carries a qualifier: in its chain, as its comment, or by the type of a pair that may be null. -/
def Carries (column : Column) (q : Method) : Prop :=
  q ∈ column.methods.methods ∨ (q.name = "comment" ∧ column.comment = q.value? 0) ∨
    (q.name = "nullable" ∧ column.type ∈ ["nullableMorphs", "nullableUuidMorphs"])

instance (column : Column) (q : Method) : Decidable (Carries column q) :=
  inferInstanceAs (Decidable (_ ∨ _ ∨ _))

/-- Whether a qualifier has its place in the chain of a key column. That a pair may be null is in its type. -/
def isChained (kind : RelationKind) (q : Method) : Bool :=
  columnQualifiers.contains q.name && !(kind = .morphTo && q.name = "nullable")

/-- What a key column holds of the qualifiers of its line. The first comment is no part of the chain. -/
structure Holds (kind : RelationKind) (qualifiers : List Method) (column : Column) : Prop where
  chain : column.methods.methods = (qualifiers.filter (isChained kind)).eraseP (·.name == "comment")
  comment {q} : qualifiers.find? (·.name == "comment") = some q → column.comment = q.value? 0
  nullable : kind = .morphTo → ((∃ q ∈ qualifiers, q.name = "nullable") ↔
    column.type ∈ ["nullableMorphs", "nullableUuidMorphs"])

theorem isChained_of_comment (kind : RelationKind) {q : Method} (hq : q.name = "comment") : isChained kind q = true := by
  rw [isChained, contains_columnQualifiers_iff.mpr (by simp [hq])]
  simp [hq]

/-- Of qualifiers without the first that satisfies a test, none is gone but that one. -/
theorem mem_eraseP_or {α : Type} {p : α → Bool} {xs : List α} {x : α} (hx : x ∈ xs) :
    x ∈ xs.eraseP p ∨ xs.find? p = some x := by
  induction xs with
  | nil => exact absurd hx List.not_mem_nil
  | cons y rest ih =>
    cases hp : p y with
    | true =>
      rw [List.eraseP_cons_of_pos hp, List.find?_cons_of_pos hp]
      exact (List.mem_cons.mp hx).symm.imp id fun h => congrArg some h.symm
    | false =>
      have hy : ¬p y = true := by simp [hp]
      rw [List.eraseP_cons_of_neg hy, List.find?_cons_of_neg hy, List.mem_cons]
      rcases List.mem_cons.mp hx with rfl | hx
      · exact .inl (.inl rfl)
      · exact (ih hx).imp .inr id

theorem find?_comment_filter {p : Method → Bool} {qualifiers : List Method} (hp : ∀ q, q.name = "comment" → p q = true) :
    (qualifiers.filter p).find? (·.name == "comment") = qualifiers.find? (·.name == "comment") := by
  rw [List.find?_filter]
  congr 1
  funext q
  by_cases hq : q.name = "comment" <;> simp [hq, hp q]

theorem Holds.carries {kind : RelationKind} {qualifiers : List Method} {column : Column} (h : Holds kind qualifiers column)
    {q : Method} (hq : q ∈ qualifiers) (hc : columnQualifiers.contains q.name = true) : Carries column q := by
  by_cases hnull : kind = .morphTo ∧ q.name = "nullable"
  · exact .inr (.inr ⟨hnull.2, (h.nullable hnull.1).mp ⟨q, hq, hnull.2⟩⟩)
  · have hchained : isChained kind q = true := by
      unfold isChained
      rw [hc]
      simpa [imp_iff_not_or] using hnull
    rcases mem_eraseP_or (p := (·.name == "comment")) (List.mem_filter.mpr ⟨hq, hchained⟩) with hchain | hfound
    · exact .inl (h.chain ▸ hchain)
    · have hname : q.name = "comment" := by simpa using List.find?_some hfound
      rw [find?_comment_filter fun q hq => isChained_of_comment kind hq] at hfound
      exact .inr (.inl ⟨hname, h.comment hfound⟩)

/-- The name of the column, or of the pair, in which a relation stores its key. -/
def keyName? : Link → Option String
  | .belongsTo l => some l.columnKey
  | .morphTo l => some l.columnName
  | _ => none

/-- A model declares a line under a name. -/
def DeclaresLine (schema : SchemaDeclaration) (k n text : String) : Prop :=
  ∃ y s, schema.models.get? k = some y ∧ modelDeclaration k y = .ok s ∧ s.columns.get? n = some (some text)

theorem DeclaresLine.parse {text : String} {l : DeclaredRelation} (h : DeclaresLine schema l.model l.name text)
    (hl : DeclaredBy schema l) : DeclaredRelation.parse l.model l.name (.parse text) = .ok l := by
  obtain ⟨y, declaration, hy, hread, htext⟩ := h
  obtain ⟨y', declaration', text', hy', hread', htext', hp⟩ := hl
  obtain rfl := Option.some_inj.mp (hy.symm.trans hy')
  obtain rfl := Except.ok.inj (hread.symm.trans hread')
  obtain rfl := Option.some_inj.mp (Option.some_inj.mp (htext.symm.trans htext'))
  exact hp

theorem declaresLine_of_any {k n text : String} (h : (schema.models.get? k).any (fun y =>
    (modelDeclaration k y).toOption.any fun s => s.columns.get? n = some (some text)) = true) : DeclaresLine schema k n text := by
  obtain ⟨y, hy, h⟩ := exists_of_any h
  obtain ⟨declaration, hread, h⟩ := exists_of_any h
  exact ⟨y, declaration, hy, ok_of_toOption hread, of_decide_eq_true h⟩

/-- A relation line of a schema that resolves has its relation. -/
theorem exists_relation_of_line (c : Course settings schema) {k n text : String} {kind : RelationKind}
    (hline : DeclaresLine schema k n text) (hkind : DeclaredRelation.kindOf? (.parse text) = some kind) :
    ∃ m r, c.complete.models.get? k = some m ∧ m.relations.get? n = some r ∧ r.kind = kind ∧
      (n, kind) ∈ c.declared.relationLines k := by
  obtain ⟨y, declaration, hy, hread, htext⟩ := hline
  have hk : k ∈ c.declared.declarations.keys :=
    c.founded_laid.1.read.keys ▸ OrderedMap.mem_keys_iff.mpr ⟨y, hy⟩
  obtain ⟨declaration', hdeclaration⟩ := OrderedMap.mem_keys_iff.mp hk
  obtain ⟨y', hy', hread'⟩ := c.founded_laid.1.read.declaration k declaration' hdeclaration
  obtain rfl := Option.some_inj.mp (hy.symm.trans hy')
  obtain rfl := Except.ok.inj (hread.symm.trans hread')
  have hlines : (n, kind) ∈ c.declared.relationLines k := by
    unfold Draft.relationLines
    rw [hdeclaration]
    exact mem_relationLines_iff.mpr ⟨some text, htext, hkind⟩
  obtain ⟨m₀, hm₀⟩ := OrderedMap.mem_keys_iff.mp (c.sound_declared.keys ▸ hk)
  obtain ⟨m, hm, _⟩ := c.edited_declared.model hm₀
  obtain ⟨r, hr⟩ := c.exists_relation hm hlines
  exact ⟨m, r, hm, hr, Draft.kind_unique (c.mem_relationLines hm hr) hlines, hlines⟩

theorem exists_relation_of_declaredBy (c : Course settings schema) {l : DeclaredRelation} (hline : DeclaredBy schema l) :
    ∃ m r, c.complete.models.get? l.model = some m ∧ m.relations.get? l.name = some r ∧ r.kind = l.kind := by
  obtain ⟨y, declaration, text, hy, hread, htext, hparse⟩ := hline
  obtain ⟨m, r, hm, hr, hkind, _⟩ :=
    exists_relation_of_line c ⟨y, declaration, hy, hread, htext⟩ (DeclaredRelation.parse_ok hparse).kind
  exact ⟨m, r, hm, hr, hkind⟩

/-- The column that is made for a `belongsTo` holds the qualifiers of its line, unless its builder has passed for a comment and
the first of them for its type. -/
theorem holds_of_owned {c : Course settings schema} {l : DeclaredRelation} {d : Draft} {owner target m : Model}
    {column placed : Column} {qualifiers : List Method} (h : c.Owned l d owner target column m)
    (hq : l.columnMethods.methods = qualifiers.filter (columnQualifiers.contains ·.name))
    (hplaced : m.columns.get? l.name = some placed) (htype : placed.type ∉ columnQualifiers) :
    Holds .belongsTo qualifiers placed := by
  obtain ⟨name, builder, rfl, _⟩ := keyColumn_ok h.keyColumn_ok
  have hu := c.untagged_eq h hplaced
  have hfilter : qualifiers.filter (isChained .belongsTo) = l.columnMethods.methods := by
    rw [hq]
    exact List.filter_congr fun q _ => by simp [isChained]
  have hfind : l.columnMethods.find? "comment" = qualifiers.find? (·.name == "comment") := by
    unfold Call.find?
    rw [hq, find?_comment_filter fun q hq => contains_columnQualifiers_iff.mpr (by simp [hq])]
  unfold DeclaredRelation.columnCall at hu
  by_cases hb : builder.1 = "comment"
  · rw [hb] at hu
    obtain ⟨hfirst, hrest⟩ := Column.type_ofCall_comment name builder.2 l.columnMethods
    -- Such a builder does no harm to a line without qualifiers of a column.
    have hnone : l.columnMethods.methods = [] := by
      by_contra hne
      obtain ⟨q, rest, hcons⟩ := List.exists_cons_of_ne_nil hne
      rw [Call.first?, hcons] at hfirst
      have hmem : q ∈ qualifiers.filter (columnQualifiers.contains ·.name) := hq ▸ hcons ▸ List.mem_cons_self
      exact htype ((congrArg Column.type hu).trans hfirst ▸ by simpa using (List.mem_filter.mp hmem).2)
    refine ⟨?_, fun {q} hf => ?_, fun hkind => RelationKind.noConfusion hkind⟩
    · rw [hfilter, hnone]
      refine (congrArg (·.methods.methods) hu).trans ((congrArg (·.methods) hrest).trans ?_)
      rw [Call.tail, hnone]
      rfl
    · rw [← hfind, Call.find?, hnone] at hf
      cases hf
  · obtain ⟨hchain, hcomment⟩ := Column.qualifiers_ofCall_single hb name builder.2 l.columnMethods
    refine ⟨?_, fun {q} hf => ?_, fun hkind => RelationKind.noConfusion hkind⟩
    · rw [hfilter]
      exact (congrArg (·.methods.methods) hu).trans (congrArg (·.methods) hchain)
    · exact (congrArg Column.comment hu).trans (hcomment.trans (by rw [hfind, hf]; rfl))

theorem PairType.mem_nullable_iff {nullable uuid : Bool} {type : String} (h : PairType nullable uuid type) :
    type ∈ ["nullableMorphs", "nullableUuidMorphs"] ↔ nullable = true := by
  cases h <;> decide

theorem PairType.not_mem_columnQualifiers {nullable uuid : Bool} {type : String} (h : PairType nullable uuid type) :
    type ∉ columnQualifiers := by
  cases h <;> decide

/-- The column pair of a pointer holds the qualifiers of its line. -/
theorem holds_of_isPair {l : DeclaredRelation} {link : MorphTo} {shape : KeyShape} {column : Column}
    {qualifiers : List Method} (h : IsPair l link shape column)
    (hq : l.columnMethods.methods = qualifiers.filter (columnQualifiers.contains ·.name)) :
    Holds .morphTo qualifiers column := by
  refine ⟨?_, fun {q} hf => ?_, fun _ => ?_⟩
  · rw [h.methods, hq, List.filter_filter]
    refine congrArg (List.eraseP _) (List.filter_congr fun q _ => ?_)
    simp [isChained, Bool.and_comm, bne, beq_eq_decide]
  · rw [h.comment, Call.find?, hq, find?_comment_filter (fun q hq => contains_columnQualifiers_iff.mpr (by simp [hq])), hf]
    rfl
  · have hnull : l.columnMethods.has "nullable" = true ↔ ∃ q ∈ qualifiers, q.name = "nullable" := by
      unfold Call.has
      rw [hq, List.any_filter, List.any_eq_true]
      refine exists_congr fun q => and_congr_right fun _ => ?_
      rw [Bool.and_eq_true, beq_iff_eq]
      exact and_iff_right_of_imp fun hn => contains_columnQualifiers_iff.mpr (by simp [hn])
    rw [h.type.mem_nullable_iff, hnull]

/-- The qualifiers of a relation line that rests on a column are kept. Those that are no qualifiers of a column are the methods of
the relation, in order. Those of a column are carried by the key column that is made for the line, unless its type is itself the
name of one. A `belongsTo` is without a column of its own where another column has the name of its key, which then serves as it
is. -/
theorem qualifiers_kept (h : resolve settings schema = .ok s) {k n text : String} {kind : RelationKind}
    (hline : DeclaresLine schema k n text) (hkind : DeclaredRelation.kindOf? (.parse text) = some kind)
    (hneeds : kind.needsColumn = true) : ∃ m r, s.models.get? k = some m ∧ m.relations.get? n = some r ∧ r.kind = kind ∧
      r.methods.methods = (Call.parse text).methods.tail.filter (!columnQualifiers.contains ·.name) ∧
      (∀ column, m.columns.get? n = some column → keyName? r.link = some column.name ∧
        (column.type ∉ columnQualifiers → Holds kind (Call.parse text).methods.tail column ∧
          ∀ q ∈ (Call.parse text).methods.tail, columnQualifiers.contains q.name = true → Carries column q)) ∧
      (kind = .morphTo → ∃ column, m.columns.get? n = some column ∧ column.type ∉ columnQualifiers) ∧
      (m.columns.get? n = none → ∃ name, keyName? r.link = some name ∧
        (name ≠ "id" → ∃ j column, m.columns.get? j = some column ∧ column.name = name)) := by
  obtain ⟨c, hmodels, _⟩ := exists_course_of_resolve h
  rw [hmodels]
  obtain ⟨m, r, hm, hr, rfl, hlines⟩ := exists_relation_of_line c hline hkind
  refine ⟨m, r, hm, hr, rfl, ?_⟩
  cases hl : r.link with
  | belongsTo link =>
    have hbelongs : r.kind = .belongsTo := congrArg Link.kind hl
    rw [hbelongs] at hlines ⊢
    obtain ⟨l, d, owner, target, column, ho, rfl, rfl, hlk⟩ := c.exists_owned hm hlines
    obtain ⟨hcolumn, hmethods⟩ := DeclaredRelation.parse_qualifiers (hline.parse (c.declaredBy ho.declares)) (hlk ▸ rfl)
    obtain rfl := Option.some_inj.mp (hr.symm.trans ho.relation)
    obtain rfl := Link.belongsTo.inj hl
    refine ⟨hmethods, fun placed hplaced => ⟨?_, fun htype => ?_⟩, nofun,
      fun _ => ⟨column.name, rfl, c.exists_named ho hm⟩⟩
    · exact congrArg some (Column.name_eq_of_untagged (c.untagged_eq ho hplaced)).symm
    · have hholds := holds_of_owned ho hcolumn hplaced htype
      exact ⟨hholds, fun q => hholds.carries⟩
  | morphTo link =>
    have hpointer : r.kind = .morphTo := congrArg Link.kind hl
    rw [hpointer]
    obtain ⟨l, shape, hpaired, rfl, rfl⟩ := c.exists_paired hm hr hl
    obtain ⟨l', models, hdeclares, hmodel, hname, rfl⟩ := c.exists_line_of_pointer hm hr hpointer
    obtain rfl : l' = l := (c.declaredBy hpaired.declares).unique (c.declaredBy hdeclares) hmodel hname
    obtain rfl := Link.morphTo.inj hl
    have hlk : l'.kind = .morphTo := Draft.kind_unique hdeclares.line (hpointer ▸ hlines)
    obtain ⟨hcolumn, hmethods⟩ := DeclaredRelation.parse_qualifiers (hline.parse (c.declaredBy hdeclares)) (hlk ▸ rfl)
    obtain ⟨column, hplaced, hpair⟩ := isPair_of_paired hpaired
    have htype : column.type ∉ columnQualifiers := hpair.type.not_mem_columnQualifiers
    have hholds := holds_of_isPair hpair hcolumn
    refine ⟨hmethods, fun placed hp => ?_, fun _ => ⟨column, hplaced, htype⟩,
      fun hnone => absurd (hnone ▸ hplaced) nofun⟩
    obtain rfl := Option.some_inj.mp (hplaced.symm.trans hp)
    exact ⟨congrArg some hpair.name.symm, fun _ => ⟨hholds, fun q => hholds.carries⟩⟩
  | _ =>
    rw [Relation.kind, hl] at hneeds
    cases hneeds

theorem blog_qualifiers_kept : ∃ s post author image owner, resolve .standard blog = .ok s ∧
    s.models.get? "Post" = some post ∧ post.columns.get? "author" = some author ∧ Carries author (.bare "index") ∧
    s.models.get? "Image" = some image ∧ image.columns.get? "owner" = some owner ∧ Carries owner (.bare "nullable") := by
  have hblog : (resolve .standard blog).toOption.any (fun s =>
      ((s.models.get? "Post").any fun post => (post.columns.get? "author").any fun column =>
        column.type ∉ columnQualifiers) ∧
      (s.models.get? "Image").any fun image => (image.columns.get? "owner").any fun column =>
        column.type ∉ columnQualifiers) = true := by decide +kernel
  obtain ⟨s, h, hs⟩ := exists_resolved_of_any hblog
  obtain ⟨hpost, himage⟩ := of_decide_eq_true hs
  obtain ⟨post, hpost, hp⟩ := exists_of_any hpost
  obtain ⟨author, hauthor, hp⟩ := exists_of_any hp
  obtain ⟨image, himage, hi⟩ := exists_of_any himage
  obtain ⟨owner, howner, hi⟩ := exists_of_any hi
  have hbyline : DeclaresLine blog "Post" "author" "belongsTo:User,user_id index" := declaresLine_of_any (by decide +kernel)
  have hpicture : DeclaresLine blog "Image" "owner" "morphTo:imageable nullable" := declaresLine_of_any (by decide +kernel)
  have hbelongs : DeclaredRelation.kindOf? (.parse "belongsTo:User,user_id index") = some .belongsTo := by decide +kernel
  have hpoints : DeclaredRelation.kindOf? (.parse "morphTo:imageable nullable") = some .morphTo := by decide +kernel
  obtain ⟨post', r, hpost', _, _, _, hmade, _⟩ := qualifiers_kept h hbyline hbelongs rfl
  obtain ⟨image', r', himage', _, _, _, hpaired, _⟩ := qualifiers_kept h hpicture hpoints rfl
  obtain rfl := Option.some_inj.mp (hpost.symm.trans hpost')
  obtain rfl := Option.some_inj.mp (himage.symm.trans himage')
  exact ⟨s, post, author, image, owner, h, hpost, hauthor,
    ((hmade author hauthor).2 (of_decide_eq_true hp)).2 _ (by decide +kernel) (by decide +kernel), himage, howner,
    ((hpaired owner howner).2 (of_decide_eq_true hi)).2 _ (by decide +kernel) (by decide +kernel)⟩

/-- A relation that may be null, whose key column is declared beside it. -/
def bylines : SchemaDeclaration where
  rootNamespace := none
  models := .ofList [
    ("User", declaredByLines [("name", "string")]),
    ("Post", declaredByLines [("user_id", "unsignedBigInteger"), ("user", "belongsTo nullable"), ("title", "string")])]
  migrations := .empty

theorem bylines_lose_nullable : ∃ s post r column, resolve .standard bylines = .ok s ∧ s.models.get? "Post" = some post ∧
    DeclaresLine bylines "Post" "user" "belongsTo nullable" ∧
    (Call.parse "belongsTo nullable").methods = [.bare "belongsTo", .bare "nullable"] ∧
    post.relations.get? "user" = some r ∧ keyName? r.link = some "user_id" ∧ r.methods = .empty ∧
    post.columns.get? "user_id" = some column ∧ column.name = "user_id" ∧ column.relation = some "user" ∧
    ∀ c ∈ post.columns.values, ¬Carries c (.bare "nullable") := by
  have hpost : (resolve .standard bylines).toOption.any (fun s => (s.models.get? "Post").any fun post =>
      (post.relations.get? "user").any fun r => (post.columns.get? "user_id").any fun column =>
        keyName? r.link = some "user_id" ∧ r.methods = .empty ∧ column.name = "user_id" ∧ column.relation = some "user" ∧
        ∀ c ∈ post.columns.values, ¬Carries c (.bare "nullable")) = true := by decide +kernel
  obtain ⟨s, h, hs⟩ := exists_resolved_of_any hpost
  obtain ⟨post, hpost, hp⟩ := exists_of_any hs
  obtain ⟨r, hr, hp⟩ := exists_of_any hp
  obtain ⟨column, hcolumn, hp⟩ := exists_of_any hp
  obtain ⟨hkey, hmethods, hname, hrelation, hall⟩ := of_decide_eq_true hp
  exact ⟨s, post, r, column, h, hpost, declaresLine_of_any (by decide +kernel), by decide +kernel, hr, hkey, hmethods, hcolumn,
    hname, hrelation, hall⟩

end Resolved

end Schemata
