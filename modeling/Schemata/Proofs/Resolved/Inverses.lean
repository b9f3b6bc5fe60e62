import Schemata.Proofs.Resolution.Inverses
import Schemata.Proofs.Resolved.Completion
import Schemata.Proofs.Resolved.Parents
import Schemata.Proofs.Resolved.Qualifiers

/-!
# Inverses of a resolved schema

Relations that read a key column from the other side agree with the `belongsTo` that holds it.
-/

namespace Schemata.Resolved

open Resolution

variable {settings : Settings} {schema : SchemaDeclaration} {s : Resolved} {k : String} {m : Model}

/-- By the first of its relation lines that does so, a model belongs to another. -/
def BelongsFirst (schema : SchemaDeclaration) (m : Model) (target : String) (inverse : BelongsTo) : Prop :=
  ∃ y declaration before name after, schema.models.get? m.key = some y ∧ modelDeclaration m.key y = .ok declaration ∧
    relationLines declaration = before ++ (name, .belongsTo) :: after ∧ BelongsAt m name inverse ∧ inverse.model = target ∧
    ∀ line ∈ before, ∀ other, BelongsAt m line.1 other → other.model ≠ target

/-- The model under one key belongs to that under another. -/
def Belongs (s : Resolved) (source target : String) : Prop :=
  ∃ m place link, s.models.get? source = some m ∧ BelongsAt m place link ∧ link.model = target

theorem belongs_of_draft {d : Draft} {source target : String} (hs : s.models = d.models) (h : d.Belongs source target) :
    s.Belongs source target := by
  obtain ⟨m, hm, hsome⟩ := h
  obtain ⟨place, link, hplace, hmodel⟩ := exists_belongsAt hsome
  exact ⟨m, place, link, hs ▸ hm, hplace, hmodel⟩

/-- The `belongsTo` that is found on a model is that of the first line that fits. -/
theorem exists_line_of_found (c : Course settings schema) (hm : c.complete.models.get? k = some m) {p : BelongsTo → Bool}
    {link : BelongsTo} (h : (m.belongsToRelations.map Prod.snd).find? p = some link) : ∃ y declaration before name after,
      schema.models.get? m.key = some y ∧ modelDeclaration m.key y = .ok declaration ∧
      relationLines declaration = before ++ (name, .belongsTo) :: after ∧ BelongsAt m name link ∧ p link = true ∧
      ∀ line ∈ before, ∀ other, BelongsAt m line.1 other → p other = false := by
  obtain rfl : m.key = k := c.founded.sound.keyed k m hm
  obtain ⟨declaration, hdeclaration⟩ := OrderedMap.mem_keys_iff.mp
    (c.founded.sound.keys ▸ OrderedMap.mem_keys_iff.mpr ⟨m, hm⟩ : m.key ∈ c.complete.declarations.keys)
  obtain ⟨y, hy, hread⟩ := c.founded.read.declaration m.key declaration hdeclaration
  have hlines : c.complete.relationLines m.key = relationLines declaration := by
    unfold Draft.relationLines
    rw [hdeclaration]
    rfl
  have hresolved := hlines ▸ resolved_eq_relationLines c.founded.sound hm (c.complete_models hm).2
  obtain ⟨before, name, r, after, heq, hlink, hfits, hbefore⟩ := Model.exists_of_find?_belongsTo h
  have hplace : m.relations.get? name = some r := Slots.mem_resolved_iff.mp (heq ▸ by simp)
  have hkind : r.kind = .belongsTo := congrArg Link.kind hlink
  rw [heq, List.map_append, List.map_cons] at hresolved
  dsimp only at hresolved
  rw [hkind] at hresolved
  refine ⟨y, declaration, _, name, _, hy, hread, hresolved.symm, ⟨r, hplace, hlink⟩, hfits, ?_⟩
  rintro line hline other ⟨r', hr', hother⟩
  obtain ⟨x, hx, rfl⟩ := List.mem_map.mp hline
  have hx' : m.relations.get? x.1 = some x.2 := Slots.mem_resolved_iff.mp (heq ▸ List.mem_append_left _ hx)
  obtain rfl := Option.some_inj.mp (hr'.symm.trans hx')
  exact hbefore x hx other hother

theorem belongsFirst_of_found (c : Course settings schema) (hm : c.complete.models.get? k = some m) {target : String}
    {inverse : BelongsTo} (h : m.belongsTo? target = some inverse) : BelongsFirst schema m target inverse := by
  obtain ⟨y, declaration, before, name, after, hy, hread, hlines, hplace, hpoints, hbefore⟩ := exists_line_of_found c hm h
  exact ⟨y, declaration, before, name, after, hy, hread, hlines, hplace, beq_iff_eq.mp hpoints,
    fun line hline other hother => beq_eq_false_iff_ne.mp (hbefore line hline other hother)⟩

/-- What a relation has found on the other side is there when the schema is resolved. A `hasOne` or `hasMany` that names no key has
the key column of the first `belongsTo` of its target that points back, and the owner key of that unless it names one. A through
relation that names no keys goes from a target that belongs to the model between, which belongs to the model of the relation. -/
theorem inverses_hold (h : resolve settings schema = .ok s) {l : DeclaredRelation} (hline : DeclaredBy schema l) :
    ∃ m r, s.models.get? l.model = some m ∧ m.relations.get? l.name = some r ∧ r.kind = l.kind ∧
      (∀ link, r.link = .hasOne link ∨ r.link = .hasMany link → l.argument? 1 = none → ∃ target inverse,
        s.models.get? link.model = some target ∧ BelongsFirst schema target l.model inverse ∧
        link.foreignKey = inverse.columnKey ∧ link.localKey = (l.argument? 2).or inverse.ownerKey) ∧
      ∀ link, r.link = .hasOneThrough link ∨ r.link = .hasManyThrough link → l.argument? 2 = none → l.argument? 3 = none →
        s.Belongs link.model link.through ∧ s.Belongs link.through l.model := by
  obtain ⟨c, hmodels, _⟩ := exists_course_of_resolve h
  obtain ⟨y, declaration, text, hy, hread, htext, hparse⟩ := id hline
  obtain ⟨m, r, hm, hr, hkind, _⟩ :=
    exists_relation_of_line c ⟨y, declaration, hy, hread, htext⟩ (DeclaredRelation.parse_ok hparse).kind
  refine ⟨m, r, hmodels ▸ hm, hr, hkind, fun link hlink hkey => ?_, fun link hlink hfirst hsecond => ?_⟩
  · obtain ⟨l', target, hl', hmodel, hname, htarget, hinverse⟩ := c.exists_inverse hm hr hlink
    obtain rfl := hline.unique (c.declaredBy hl') hmodel hname
    obtain ⟨inverse, hfound, hforeign, hlocal⟩ := hinverse hkey
    exact ⟨target, inverse, hmodels ▸ htarget, belongsFirst_of_found c htarget hfound, hforeign, hlocal⟩
  · obtain ⟨l', hl', hmodel, hname, hchain⟩ := c.exists_chain hm hr hlink
    obtain rfl := hline.unique (c.declaredBy hl') hmodel hname
    obtain ⟨htarget, hthrough⟩ := hchain hfirst hsecond
    exact ⟨belongs_of_draft hmodels htarget, belongs_of_draft hmodels hthrough⟩

/-- A model below itself, one that another belongs to in two ways, and a model behind it. -/
def library : SchemaDeclaration where
  rootNamespace := none
  models := .ofList [
    ("Shelf", declaredByLines [("parts", "hasMany:Shelf"), ("whole", "belongsTo:Shelf,whole_id"), ("loans", "hasManyThrough:Loan")]),
    ("Book", declaredByLines [("shelf", "belongsTo"), ("isbn", "string unique"), ("loans", "hasMany:Loan")]),
    ("Loan", declaredByLines [("reader", "string"), ("book", "belongsTo:Book,book_isbn,isbn"), ("last", "belongsTo:Book,last_id")])]
  migrations := .empty

theorem library_inverses_hold : ∃ s loan inverse, resolve .standard library = .ok s ∧ s.models.get? "Loan" = some loan ∧
    BelongsFirst library loan "Book" inverse ∧ inverse.columnKey = "book_isbn" ∧ inverse.ownerKey = some "isbn" ∧
    HasLink s "Shelf" (.hasMany ⟨"Shelf", "whole_id", none⟩) ∧ s.Belongs "Loan" "Book" ∧ s.Belongs "Book" "Shelf" := by
  have hline : (library.models.get? "Book").any (fun y => (modelDeclaration "Book" y).toOption.any fun s =>
      (s.columns.get? "loans").any fun line => line.any fun text =>
        (DeclaredRelation.parse "Book" "loans" (.parse text)).toOption.any fun l => l.argument? 1 = none ∧ l.argument? 2 = none) =
          true := by decide +kernel
  have hbehind : (library.models.get? "Shelf").any (fun y => (modelDeclaration "Shelf" y).toOption.any fun s =>
      (s.columns.get? "loans").any fun line => line.any fun text =>
        (DeclaredRelation.parse "Shelf" "loans" (.parse text)).toOption.any fun l => l.argument? 2 = none ∧ l.argument? 3 = none) =
          true := by decide +kernel
  have hlibrary : (resolve .standard library).toOption.any (fun s =>
      ((s.models.get? "Book").any fun book => (book.relations.get? "loans").any fun r =>
        r.link = .hasMany ⟨"Loan", "book_isbn", some "isbn"⟩) ∧
      (s.models.get? "Shelf").any fun shelf => ((shelf.relations.get? "parts").any fun r =>
        r.link = .hasMany ⟨"Shelf", "whole_id", none⟩) ∧ (shelf.relations.get? "loans").any fun r =>
        r.link = .hasManyThrough ⟨"Loan", "Book", none, none⟩) = true := by decide +kernel
  obtain ⟨s, h, hs⟩ := exists_resolved_of_any hlibrary
  obtain ⟨hbook, hshelf⟩ := of_decide_eq_true hs
  obtain ⟨book, hbook, hloans⟩ := exists_of_any hbook
  obtain ⟨r, hr, hlink⟩ := exists_of_any hloans
  obtain ⟨shelf, hshelf, hs⟩ := exists_of_any hshelf
  obtain ⟨hparts, hloans⟩ := of_decide_eq_true hs
  obtain ⟨parts, hparts, hself⟩ := exists_of_any hparts
  obtain ⟨through, hthrough, hbetween⟩ := exists_of_any hloans
  obtain ⟨l, hl, hmodel, hname, hkeys⟩ := exists_declaredBy_of_any hline
  obtain ⟨l', hl', hmodel', hname', hkeys'⟩ := exists_declaredBy_of_any hbehind
  obtain ⟨hforeign, hlocal⟩ := of_decide_eq_true hkeys
  obtain ⟨hfirst, hsecond⟩ := of_decide_eq_true hkeys'
  obtain ⟨m, r', hm, hr', _, hinverse, _⟩ := inverses_hold h hl
  rw [hmodel] at hm
  obtain rfl := Option.some_inj.mp (hbook.symm.trans hm)
  rw [hname] at hr'
  obtain rfl := Option.some_inj.mp (hr.symm.trans hr')
  obtain ⟨loan, inverse, hloan, hbelongs, hcolumn, howner⟩ := hinverse _ (.inr (of_decide_eq_true hlink)) hforeign
  rw [hmodel] at hbelongs
  rw [hlocal] at howner
  obtain ⟨m', r', hm', hr', _, _, hchain⟩ := inverses_hold h hl'
  rw [hmodel'] at hm' hchain
  obtain rfl := Option.some_inj.mp (hshelf.symm.trans hm')
  rw [hname'] at hr'
  obtain rfl := Option.some_inj.mp (hthrough.symm.trans hr')
  obtain ⟨hbehind, hbetween⟩ := hchain _ (.inr (of_decide_eq_true hbetween)) hfirst hsecond
  exact ⟨s, loan, inverse, h, hloan, hbelongs, hcolumn.symm, howner.symm,
    ⟨shelf, "parts", parts, hshelf, hparts, of_decide_eq_true hself⟩, hbehind, hbetween⟩

end Schemata.Resolved
