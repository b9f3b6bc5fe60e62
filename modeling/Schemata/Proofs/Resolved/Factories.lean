import Schemata.Proofs.Resolution.Marks
import Schemata.Proofs.Resolution.Stubs
import Schemata.Proofs.Resolved.Basic

/-!
# Factories of a resolved schema

Each model that has a factory and is no pivot model has its fields: those that its declaration gives, and those that follow from
columns that may be filled. A field that stands for another model leads along a `belongsTo` that rests on its column.
-/

namespace Schemata.Resolved

open Resolution

variable {settings : Settings} {schema : SchemaDeclaration} {s : Resolved} {k : String} {m : Model} {f : FactoryDefinition}

/-- The factory of a model in a resolved schema is made from that model and its declaration. -/
theorem factory_of_resolve (h : resolve settings schema = .ok s) (hm : s.models.get? k = some m)
    (hf : s.artifacts.factories.get? k = some f) : ∃ y declaration, schema.models.get? k = some y ∧
      modelDeclaration k y = .ok declaration ∧ f = factoryOf m declaration := by
  obtain ⟨e, he, rfl⟩ := completes_of_resolve h
  obtain ⟨d, hd⟩ := settled_of_completes he
  obtain ⟨n, declaration, hn, _, hdeclaration, rfl⟩ := (factories_ok hd.keyed (factories_of_completes he)).mp hf
  obtain rfl := Option.some_inj.mp (hm.symm.trans hn)
  obtain ⟨y, hy, hread⟩ := (readFrom_of_completes he).1.declaration k declaration hdeclaration
  exact ⟨y, declaration, hy, hread, rfl⟩

theorem keys_factories (h : resolve settings schema = .ok s) :
    s.artifacts.factories.keys = (s.models.values.filter fun m => m.factory && !m.isPivot).map Model.key := by
  obtain ⟨e, he, rfl⟩ := completes_of_resolve h
  obtain ⟨d, hd⟩ := settled_of_completes he
  exact (factories_made hd.keyed (factories_of_completes he)).1

/-- A declaration gives a factory field an expression. -/
def GivesField (declaration : ModelDeclaration) (name value : String) : Prop :=
  ∃ detail, declaration.factory = some (.value detail) ∧ detail.fields.get? name = some value

theorem get?_given_iff {declaration : ModelDeclaration} {name value : String} :
    (declaration.factory.bind Toggle.value?).bind (·.fields.get? name) = some value ↔ GivesField declaration name value := by
  unfold GivesField
  cases declaration.factory with
  | none => simp
  | some toggle => cases toggle <;> simp [Toggle.value?]

/-- A factory fills a model. The fields that the declaration gives have their expressions. Each other field fills a column that may be
filled; if it stands for another model, its column is the key of a `belongsTo` that points there. -/
structure Fills (s : Resolved) (declaration : ModelDeclaration) (m : Model) (f : FactoryDefinition) : Prop where
  model : f.model = m.key
  given {name value} : GivesField declaration name value → f.fields.get? name = some (.expression value)
  column {name field} : f.fields.get? name = some field → (∀ value, ¬GivesField declaration name value) →
    name ∈ m.fillable ∧ ∃ c ∈ m.columns.values, c.name = name
  related {name target} : f.fields.get? name = some (.related target) → (∀ value, ¬GivesField declaration name value) →
    target ∈ s.models.keys ∧ ∃ place link, BelongsAt m place link ∧ link.model = target ∧ link.columnKey = name

/-- There is a factory for each model that has one and is no pivot model, in the order of the models, and it fills that model. A model
has a factory unless its declaration switches it off. -/
theorem factories_fill (h : resolve settings schema = .ok s) :
    s.artifacts.factories.keys = (s.models.values.filter fun m => m.factory && !m.isPivot).map Model.key ∧
      ∀ k m, s.models.get? k = some m → ∃ y declaration, schema.models.get? k = some y ∧
        modelDeclaration k y = .ok declaration ∧ m.factory = declaration.factoryEnabled ∧
        ∀ f, s.artifacts.factories.get? k = some f → Fills s declaration m f := by
  refine ⟨keys_factories h, fun k m hm => ?_⟩
  obtain ⟨c, hmodels, _⟩ := exists_course_of_resolve h
  have hm' : c.complete.models.get? k = some m := hmodels ▸ hm
  obtain ⟨declaration, hdeclaration⟩ := OrderedMap.mem_keys_iff.mp
    (c.founded.sound.keys ▸ OrderedMap.mem_keys_iff.mpr ⟨m, hm'⟩ : k ∈ c.complete.declarations.keys)
  obtain ⟨y, hy, hread⟩ := c.founded.read.declaration k declaration hdeclaration
  refine ⟨y, declaration, hy, hread, c.factory_eq hm' hdeclaration, fun f hf => ?_⟩
  obtain ⟨y', declaration', hy', hread', rfl⟩ := factory_of_resolve h hm hf
  obtain rfl := Option.some_inj.mp (hy.symm.trans hy')
  obtain rfl := Except.ok.inj (hread.symm.trans hread')
  -- A field that is not given comes of a column.
  have guessed : ∀ {name field}, (factoryOf m declaration).fields.get? name = some field →
      (∀ value, ¬GivesField declaration name value) → (OrderedMap.ofList (guessedFields m)).get? name = some field := by
    intro name field hfield hnot
    have hnone : (declaration.factory.bind Toggle.value?).bind (·.fields.get? name) = none :=
      Option.eq_none_iff_forall_ne_some.mpr fun value hvalue => hnot value (get?_given_iff.mp hvalue)
    rwa [get?_fields_factoryOf, hnone, Option.map_none, Option.none_or] at hfield
  refine ⟨rfl, fun {name value} hgiven => ?_, fun {name field} hfield hnot => ?_, fun {name target} hfield hnot => ?_⟩
  · rw [get?_fields_factoryOf, get?_given_iff.mpr hgiven, Option.map_some, Option.some_or]
  · obtain ⟨column, hcolumn, hname, hfillable, _⟩ := exists_column_of_guessed (guessed hfield hnot)
    exact ⟨hfillable, column, hcolumn, hname⟩
  · obtain ⟨column, hcolumn, rfl, _, hrelated⟩ := exists_column_of_guessed (guessed hfield hnot)
    obtain ⟨relation, r, link, hmark, hr, hlink, rfl⟩ := hrelated target rfl
    obtain ⟨place, hplace⟩ := Slots.mem_values_iff.mp hcolumn
    refine ⟨?_, relation, link, ⟨r, hr, hlink⟩, rfl, c.columnKey_of_mark hm' hplace hmark ⟨r, hr, hlink⟩⟩
    rw [hmodels]
    have hreferences := ((c.founded.sound.model k m hm').relation hr).2.2
    rw [hlink] at hreferences
    exact hreferences List.mem_cons_self

/-- Posts with an author and an editor on one key column, and a title of their own in the factory. Categories have no factory, and
memberships are pivots. -/
def press : SchemaDeclaration where
  rootNamespace := none
  models := .ofList [
    ("User", declaredByLines [("name", "string")]),
    ("Category", .map [(.str "label", .str "string"), (.str "factory", .bool false)]),
    ("Post", .map [
      (.str "columns", declaredByLines [("title", "string"), ("user_id", "unsignedBigInteger"), ("author", "belongsTo:User,user_id"),
        ("editor", "belongsTo:User,user_id"), ("category", "belongsTo")]),
      (.str "factory", .map [(.str "fields", declaredByLines [("title", "'Untitled'")])])]),
    ("Membership", .map [(.str "columns", declaredByLines [("user", "belongsTo")]), (.str "type", .str "pivot")])]
  migrations := .empty

theorem press_factories_fill : ∃ s post f y declaration, resolve .standard press = .ok s ∧
    s.artifacts.factories.keys = ["User", "Post"] ∧ s.models.get? "Post" = some post ∧
    s.artifacts.factories.get? "Post" = some f ∧ press.models.get? "Post" = some y ∧
    modelDeclaration "Post" y = .ok declaration ∧ Fills s declaration post f ∧ GivesField declaration "title" "'Untitled'" ∧
    f.fields.entries = [("title", .expression "'Untitled'"), ("user_id", .related "User"), ("category_id", .related "Category")] ∧
    (post.relations.get? "author").map (·.link) = (post.relations.get? "editor").map (·.link) := by
  have hpress : (resolve .standard press).toOption.any (fun s => s.artifacts.factories.keys = ["User", "Post"] ∧
      ((s.models.get? "Post").any fun post =>
        (post.relations.get? "author").map (·.link) = (post.relations.get? "editor").map (·.link)) = true ∧
      (s.artifacts.factories.get? "Post").any fun f => f.fields.entries =
        [("title", .expression "'Untitled'"), ("user_id", .related "User"), ("category_id", .related "Category")]) = true := by
    decide +kernel
  have hgives : (press.models.get? "Post").any (fun y => (modelDeclaration "Post" y).toOption.any fun declaration =>
      (declaration.factory.bind Toggle.value?).bind (·.fields.get? "title") = some "'Untitled'") = true := by decide +kernel
  obtain ⟨s, h, hs⟩ := exists_resolved_of_any hpress
  obtain ⟨hkeys, hpost, hfactory⟩ := of_decide_eq_true hs
  obtain ⟨post, hpost, hlinks⟩ := exists_of_any hpost
  obtain ⟨f, hf, hfields⟩ := exists_of_any hfactory
  obtain ⟨y, declaration, hy, hread, _, hfills⟩ := (factories_fill h).2 "Post" post hpost
  rw [hy, Option.any_some, hread] at hgives
  exact ⟨s, post, f, y, declaration, h, hkeys, hpost, hf, hy, hread, hfills f hf, get?_given_iff.mp (of_decide_eq_true hgives),
    of_decide_eq_true hfields, of_decide_eq_true hlinks⟩

end Schemata.Resolved
