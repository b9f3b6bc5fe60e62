import Schemata.Proofs.Relation.Lines
import Schemata.Proofs.Slots
import Schemata.Resolution.Draft

/-!
# Drafts by their look-ups

What is found in a draft: models under their own keys, and the relation lines that they declare.
-/

namespace Schemata

open Schemata.Shorthand

namespace Resolution

/-- The relation lines of a declaration: their names with their kinds, in order. -/
def relationLines (s : ModelDeclaration) : List (String × RelationKind) :=
  s.columns.entries.filterMap fun (name, line) => (DeclaredRelation.kindOf? (Call.ofLine line)).map (name, ·)

theorem mem_relationLines_iff {s : ModelDeclaration} {name : String} {kind : RelationKind} :
    (name, kind) ∈ relationLines s ↔
      ∃ line, s.columns.get? name = some line ∧ DeclaredRelation.kindOf? (Call.ofLine line) = some kind := by
  simp only [relationLines, List.mem_filterMap, OrderedMap.get?_eq_some_iff]
  constructor
  · rintro ⟨⟨n, line⟩, hm, h⟩
    obtain ⟨k, hk, he⟩ := Option.map_eq_some_iff.mp h
    obtain ⟨rfl, rfl⟩ := Prod.mk.inj he
    exact ⟨line, hm, hk⟩
  · rintro ⟨line, hm, hk⟩
    exact ⟨(name, line), hm, by simp [hk]⟩

theorem relationLines_nodup (s : ModelDeclaration) : ((relationLines s).map Prod.fst).Nodup := by
  have hs : ((relationLines s).map Prod.fst).Sublist (s.columns.entries.map Prod.fst) := by
    unfold relationLines
    generalize s.columns.entries = xs
    induction xs with
    | nil => simp
    | cons x rest ih =>
      obtain ⟨name, line⟩ := x
      cases hk : DeclaredRelation.kindOf? (Call.ofLine line) with
      | none => simpa [List.filterMap_cons, hk] using ih.cons name
      | some kind => simpa [List.filterMap_cons, hk] using ih.cons_cons name
  exact hs.nodup s.columns.nodup

/-- The lines that a model declares. -/
def linesOf (k : String) (s : ModelDeclaration) : List DeclaredLine :=
  s.columns.entries.filterMap fun (name, line) => line.map fun line => ⟨k, name, .parse line⟩

theorem mem_linesOf_iff {k name : String} {s : ModelDeclaration} {call : Call} :
    ⟨k, name, call⟩ ∈ linesOf k s ↔ ∃ text, (s.columns.get? name).join = some text ∧ call = .parse text := by
  simp only [linesOf, List.mem_filterMap, Option.join_eq_some_iff, OrderedMap.get?_eq_some_iff]
  constructor
  · rintro ⟨⟨_, line⟩, hm, h⟩
    obtain ⟨text, rfl, heq⟩ := Option.map_eq_some_iff.mp h
    obtain ⟨_, rfl, rfl⟩ := DeclaredLine.mk.inj heq
    exact ⟨text, hm, rfl⟩
  · rintro ⟨text, hm, rfl⟩
    exact ⟨_, hm, rfl⟩

theorem model_of_mem_linesOf {k : String} {s : ModelDeclaration} {l : DeclaredLine} (hl : l ∈ linesOf k s) :
    l.model = k := by
  obtain ⟨⟨name, line⟩, _, h⟩ := List.mem_filterMap.mp hl
  obtain ⟨text, _, rfl⟩ := Option.map_eq_some_iff.mp h
  rfl

namespace Draft

variable {d e : Draft}

/-! ## Models -/

theorem model_eq_ok {key : String} {m : Model} : d.model key = .ok m ↔ d.models.get? key = some m := by
  unfold model
  cases d.models.get? key with
  | none => exact iff_of_false throw_ne_ok (by simp)
  | some n => rw [pure_eq_ok, Option.some_inj]

theorem declaration_eq_ok {key : String} {s : ModelDeclaration} :
    d.declaration key = .ok s ↔ d.declarations.get? key = some s := by
  unfold declaration
  cases d.declarations.get? key with
  | none => exact ⟨fun h => absurd h throw_ne_ok, nofun⟩
  | some t => rw [pure_eq_ok, Option.some_inj]

theorem get?_modifyModel (d : Draft) (key k : String) (f : Model → Model) :
    (d.modifyModel key f).models.get? k = if k = key then (d.models.get? k).map f else d.models.get? k :=
  d.models.get?_modify key k f

theorem exists_of_get?_modifyModel {key : String} {f : Model → Model} {n : Model}
    (h : (d.modifyModel key f).models.get? key = some n) : ∃ m, d.models.get? key = some m ∧ f m = n := by
  rw [get?_modifyModel, if_pos rfl] at h
  exact Option.map_eq_some_iff.mp h

/-- Every model stands under its own key. -/
def Keyed (d : Draft) : Prop :=
  ∀ k m, d.models.get? k = some m → m.key = k

theorem Keyed.key_mem (hd : d.Keyed) {m : Model} (h : m ∈ d.models.values) : m.key ∈ d.models.keys := by
  obtain ⟨k, hk⟩ := OrderedMap.mem_values_iff.mp h
  rw [hd k m hk]
  exact OrderedMap.mem_keys_iff.mpr ⟨m, hk⟩

theorem Keyed.map_key (hd : d.Keyed) : d.models.values.map Model.key = d.models.keys := by
  unfold OrderedMap.values OrderedMap.keys
  rw [List.map_map]
  exact List.map_congr_left fun x hx => hd x.1 x.2 (OrderedMap.get?_eq_some_iff.mpr hx)

theorem Keyed.modifyModel (hd : d.Keyed) {key : String} {f : Model → Model} (hf : ∀ m, (f m).key = m.key) :
    (d.modifyModel key f).Keyed := by
  intro k n hn
  rw [get?_modifyModel] at hn
  split at hn
  · obtain ⟨m, hm, rfl⟩ := Option.map_eq_some_iff.mp hn
    exact (hf m).trans (hd k m hm)
  · exact hd k n hn

/-! ## References -/

theorem findModel?_of_mem {key : String} (h : key ∈ d.models.keys) : d.findModel? key = some key :=
  if_pos (OrderedMap.contains_iff.mpr h)

theorem mem_keys_of_findModel? (hd : d.Keyed) {reference key : String} (h : d.findModel? reference = some key) :
    key ∈ d.models.keys := by
  unfold findModel? at h
  split at h
  · rename_i hr
    obtain rfl := Option.some_inj.mp h
    exact OrderedMap.contains_iff.mp hr
  · obtain ⟨m, hm, rfl⟩ := Option.map_eq_some_iff.mp h
    exact hd.key_mem (List.mem_of_find?_eq_some hm)

theorem mem_keys_of_resolveReference (hd : d.Keyed) {relation : RelationName} {reference key : String}
    (h : d.resolveReference relation reference = .ok key) : key ∈ d.models.keys := by
  unfold resolveReference at h
  split at h
  · rename_i hf
    obtain rfl := pure_eq_ok.mp h
    exact mem_keys_of_findModel? hd hf
  · exact absurd h throw_ne_ok

theorem mem_keys_of_guessModel? (hd : d.Keyed) {kind : RelationKind} {name key : String}
    (h : d.guessModel? kind name = some key) : key ∈ d.models.keys := by
  obtain ⟨candidate, _, hc⟩ := List.exists_of_findSome?_eq_some h
  exact mem_keys_of_findModel? hd hc

theorem mem_keys_of_target (hd : d.Keyed) {l : DeclaredRelation} {key : String} (h : d.target l = .ok key) :
    key ∈ d.models.keys := by
  unfold target at h
  split at h
  · exact mem_keys_of_resolveReference hd h
  · split at h
    · rename_i hg
      obtain rfl := pure_eq_ok.mp h
      exact mem_keys_of_guessModel? hd hg
    · exact absurd h throw_ne_ok

/-- A reference means the same model where models have the same order, keys and classes. -/
theorem findModel?_of_values (hkeys : e.models.keys = d.models.keys)
    (hvalues : e.models.values.map (fun m => (m.className, m.key)) = d.models.values.map fun m => (m.className, m.key)) :
    e.findModel? = d.findModel? := by
  funext reference
  have hfind : ∀ c : Draft, (c.models.values.find? fun m => Text.sameAscii m.className (referredClass reference)).map (·.key) =
      ((c.models.values.map fun m => (m.className, m.key)).find?
        fun x => Text.sameAscii x.1 (referredClass reference)).map Prod.snd := by
    intro c
    rw [List.find?_map, Option.map_map]
    rfl
  have hcontains : e.models.contains reference = d.models.contains reference := by
    unfold OrderedMap.contains
    rw [hkeys]
  unfold findModel?
  rw [hcontains, hfind e, hfind d, hvalues]

theorem findModel?_of_models (h : e.models = d.models) : e.findModel? = d.findModel? := by
  funext reference
  unfold findModel?
  rw [h]

theorem target_congr (h : e.findModel? = d.findModel?) (l : DeclaredRelation) : e.target l = d.target l := by
  unfold target resolveReference guessModel?
  rw [h]

/-! ## Declared lines -/

/-- The relation lines of a model. -/
def relationLines (d : Draft) (key : String) : List (String × RelationKind) :=
  (d.declarations.get? key).elim [] Resolution.relationLines

theorem relationLines_nodup (d : Draft) (key : String) : ((d.relationLines key).map Prod.fst).Nodup := by
  unfold relationLines
  cases d.declarations.get? key with
  | none => exact List.nodup_nil
  | some s => exact Resolution.relationLines_nodup s

theorem kind_unique {key name : String} {kind kind' : RelationKind} (h : (name, kind) ∈ d.relationLines key)
    (h' : (name, kind') ∈ d.relationLines key) : kind = kind' := by
  have hn := d.relationLines_nodup key
  rw [← OrderedMap.lookup_eq_some_iff_mem hn] at h h'
  exact Option.some_inj.mp (h.symm.trans h')

theorem mem_lines_iff {l : DeclaredLine} : l ∈ d.lines ↔
    ∃ s text, d.declarations.get? l.model = some s ∧ s.columns.get? l.name = some (some text) ∧ l.call = .parse text := by
  simp only [lines, List.mem_flatMap, List.mem_filterMap, OrderedMap.get?_eq_some_iff]
  constructor
  · rintro ⟨⟨key, s⟩, hs, ⟨name, line⟩, hl, h⟩
    obtain ⟨text, rfl, rfl⟩ := Option.map_eq_some_iff.mp h
    exact ⟨s, text, hs, hl, rfl⟩
  · rintro ⟨s, text, hs, hl, hc⟩
    obtain ⟨model, name, call⟩ := l
    exact ⟨(model, s), hs, (name, some text), hl, by simp_all⟩

theorem mem_relationLines_iff_mem_lines {key name : String} {kind : RelationKind} : (name, kind) ∈ d.relationLines key ↔
    ∃ l ∈ d.lines, l.model = key ∧ l.name = name ∧ DeclaredRelation.kindOf? l.call = some kind := by
  unfold relationLines
  constructor
  · intro h
    cases hs : d.declarations.get? key with
    | none => simp [hs] at h
    | some s =>
      rw [hs] at h
      obtain ⟨line, hl, hk⟩ := mem_relationLines_iff.mp h
      cases line with
      | none => cases hk
      | some text => exact ⟨⟨key, name, .parse text⟩, mem_lines_iff.mpr ⟨s, text, hs, hl, rfl⟩, rfl, rfl, hk⟩
  · rintro ⟨l, hl, rfl, rfl, hk⟩
    obtain ⟨s, text, hs, ht, hc⟩ := mem_lines_iff.mp hl
    rw [hs]
    rw [hc] at hk
    exact mem_relationLines_iff.mpr ⟨some text, ht, hk⟩

/-- A relation line as a model declares it. -/
def Declares (d : Draft) (l : DeclaredRelation) : Prop :=
  ∃ s text, d.declarations.get? l.model = some s ∧ s.columns.get? l.name = some (some text) ∧
    DeclaredRelation.parse l.model l.name (.parse text) = .ok l

theorem Declares.line {l : DeclaredRelation} (hl : d.Declares l) : (l.name, l.kind) ∈ d.relationLines l.model := by
  obtain ⟨s, text, hs, ht, hp⟩ := hl
  unfold relationLines
  rw [hs]
  exact mem_relationLines_iff.mpr ⟨some text, ht, (DeclaredRelation.parse_ok hp).kind⟩

theorem Declares.unique {l l' : DeclaredRelation} (hl : d.Declares l) (hl' : d.Declares l') (hm : l'.model = l.model)
    (hn : l'.name = l.name) : l' = l := by
  obtain ⟨s, text, hs, ht, hp⟩ := hl
  obtain ⟨s', text', hs', ht', hp'⟩ := hl'
  rw [hm] at hs' hp'
  rw [hn] at ht' hp'
  obtain rfl := Option.some_inj.mp (hs.symm.trans hs')
  obtain rfl := Option.some_inj.mp (Option.some_inj.mp (ht.symm.trans ht'))
  exact Except.ok.inj (hp'.symm.trans hp)

theorem Declares.pivot {l : DeclaredRelation} (hl : d.Declares l) (hk : l.kind.requiresPivot = false) : l.pivot = none := by
  obtain ⟨_, _, _, _, hp⟩ := hl
  exact (DeclaredRelation.parse_ok hp).pivot hk

theorem Declares.columnMethods {l : DeclaredRelation} (hl : d.Declares l) : l.columnMethods.IndexedOnce := by
  obtain ⟨_, _, _, _, hp⟩ := hl
  exact (DeclaredRelation.parse_ok hp).columnMethods

theorem lines_nodup (d : Draft) : (d.lines.map fun l => (⟨l.model, l.name⟩ : RelationName)).Nodup := by
  have hlines : d.lines = d.declarations.entries.flatMap fun x => linesOf x.1 x.2 := rfl
  rw [hlines]
  refine List.pairwise_map.mpr (List.pairwise_flatMap.mpr ⟨fun x _ => ?_, ?_⟩)
  · refine List.pairwise_filterMap.mpr ((List.pairwise_map.mp x.2.columns.nodup).imp ?_)
    rintro ⟨m, line⟩ ⟨n, line'⟩ hne l hl l' hl' heq
    obtain ⟨_, _, rfl⟩ := Option.map_eq_some_iff.mp hl
    obtain ⟨_, _, rfl⟩ := Option.map_eq_some_iff.mp hl'
    exact hne (RelationName.mk.inj heq).2
  · refine (List.pairwise_map.mp d.declarations.nodup).imp ?_
    intro x y hne l hl l' hl' heq
    exact hne (((model_of_mem_linesOf hl).symm.trans (RelationName.mk.inj heq).1).trans (model_of_mem_linesOf hl'))

/-- The relation lines of some kinds: as they are declared, all of them, and each in a place of its own. -/
structure Lists (d : Draft) (kinds : List RelationKind) (ls : List DeclaredRelation) : Prop where
  declares : ∀ l ∈ ls, d.Declares l ∧ l.kind ∈ kinds
  all : ∀ k n, ∀ kind ∈ kinds, (n, kind) ∈ d.relationLines k → ∃ l ∈ ls, l.model = k ∧ l.name = n ∧ l.kind = kind
  nodup : (ls.map DeclaredRelation.relation).Nodup

theorem lists_of_declaredRelations {kind : RelationKind} {ls : List DeclaredRelation}
    (h : d.declaredRelations kind = .ok ls) : d.Lists [kind] ls := by
  -- A line of the kind and what is parsed from it.
  have parsed : ∀ {l x}, l ∈ d.lines.filter (fun l => DeclaredRelation.kindOf? l.call = some kind) →
      DeclaredRelation.parse l.model l.name l.call = .ok x → x.model = l.model ∧ x.name = l.name ∧ x.kind = kind := by
    intro l x hl hx
    obtain ⟨hm, hn, hk, _⟩ := DeclaredRelation.parse_ok hx
    have hf := of_decide_eq_true (List.mem_filter.mp hl).2
    exact ⟨hm, hn, Option.some_inj.mp (hk.symm.trans hf)⟩
  have hall := mapM_eq_ok.mp h
  refine ⟨fun x hx => ?_, fun k n kind' hk' hn => ?_, ?_⟩
  · obtain ⟨l, hf, hp⟩ := mem_of_forall₂ hall hx
    obtain ⟨hm, hn, rfl⟩ := parsed hf hp
    obtain ⟨s, text, hs, ht, hc⟩ := mem_lines_iff.mp (List.mem_filter.mp hf).1
    rw [← hm] at hs hp
    rw [← hn] at ht hp
    exact ⟨⟨s, text, hs, ht, hc ▸ hp⟩, by simp⟩
  · obtain rfl := List.mem_singleton.mp hk'
    obtain ⟨l, hl, rfl, rfl, hk⟩ := mem_relationLines_iff_mem_lines.mp hn
    have hf : l ∈ d.lines.filter fun l => DeclaredRelation.kindOf? l.call = some kind' :=
      List.mem_filter.mpr ⟨hl, decide_eq_true hk⟩
    obtain ⟨x, hx, hp⟩ := exists_mem_of_forall₂ hall hf
    exact ⟨x, hx, parsed hf hp⟩
  · have hplaces : ls.map DeclaredRelation.relation =
        (d.lines.filter fun l => DeclaredRelation.kindOf? l.call = some kind).map fun l => ⟨l.model, l.name⟩ := by
      refine map_eq_of_forall₂ (fun {l x} hp => ?_) hall
      obtain ⟨hm, hn, _⟩ := DeclaredRelation.parse_ok hp
      exact congrArg₂ RelationName.mk hm hn
    rw [hplaces]
    exact (List.filter_sublist.map _).nodup d.lines_nodup

theorem lists_of_declaredRelationsOf {first second : RelationKind} (hne : first ≠ second) {ls : List DeclaredRelation}
    (h : d.declaredRelationsOf first second = .ok ls) : d.Lists [first, second] ls := by
  obtain ⟨xs, hx, h⟩ := bind_eq_ok.mp h
  obtain ⟨ys, hy, h⟩ := bind_eq_ok.mp h
  obtain rfl := pure_eq_ok.mp h
  obtain ⟨hx₁, hx₂, hxn⟩ := lists_of_declaredRelations hx
  obtain ⟨hy₁, hy₂, hyn⟩ := lists_of_declaredRelations hy
  refine ⟨fun l hl => ?_, fun k n kind hk hl => ?_, ?_⟩
  · rcases List.mem_append.mp hl with hl | hl
    · obtain ⟨hd, hk⟩ := hx₁ l hl
      exact ⟨hd, by simp_all⟩
    · obtain ⟨hd, hk⟩ := hy₁ l hl
      exact ⟨hd, by simp_all⟩
  · rcases List.mem_cons.mp hk with rfl | hk
    · obtain ⟨l, hm, h⟩ := hx₂ k n _ (by simp) hl
      exact ⟨l, List.mem_append_left _ hm, h⟩
    · obtain ⟨l, hm, h⟩ := hy₂ k n kind hk hl
      exact ⟨l, List.mem_append_right _ hm, h⟩
  · rw [List.map_append]
    refine List.nodup_append.mpr ⟨hxn, hyn, ?_⟩
    rintro _ hp _ hq rfl
    obtain ⟨x, hx, rfl⟩ := List.mem_map.mp hp
    obtain ⟨y, hy, heq⟩ := List.mem_map.mp hq
    obtain ⟨hdx, hkx⟩ := hx₁ x hx
    obtain ⟨hdy, hky⟩ := hy₁ y hy
    obtain ⟨hm, hn⟩ := RelationName.mk.inj heq
    have hxy : x.kind = y.kind := kind_unique hdx.line (hm ▸ hn ▸ hdy.line)
    exact hne ((List.mem_singleton.mp hkx).symm.trans (hxy.trans (List.mem_singleton.mp hky)))

end Draft

end Resolution

end Schemata
