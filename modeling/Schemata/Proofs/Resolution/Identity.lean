import Schemata.Proofs.Resolution.Along
import Schemata.Proofs.Resolution.Declarations
import Schemata.Resolution.Identity

/-!
# Declarations, shells and places

The first passes read the declarations, make a shell of each, and reserve a place for each relation line.
-/

namespace Schemata.Resolution

variable {d e : Draft} {settings : Settings}

/-! ## Declarations -/

/-- What the first pass makes of a schema. -/
structure ReadFrom (schema : SchemaDeclaration) (declarations : OrderedMap ModelDeclaration) : Prop where
  keys : declarations.keys = schema.models.keys
  declaration : ∀ k s, declarations.get? k = some s → ∃ y, schema.models.get? k = some y ∧ modelDeclaration k y = .ok s

theorem readDeclarations_ok (hd : d.declarations = .empty) (h : readDeclarations d = .ok e) :
    e = { d with declarations := e.declarations } ∧ ReadFrom d.schema e.declarations := by
  obtain ⟨read, hr, h⟩ := bind_eq_ok.mp h
  obtain rfl := pure_eq_ok.mp h
  have hread := mapM_keyed_ok hr
  have hk : read.map Prod.fst = d.schema.models.entries.map Prod.fst := map_eq_of_forall₂ And.left hread
  have hn : (read.map Prod.fst).Nodup := hk ▸ d.schema.models.nodup
  have he : (read.foldl (fun m x => m.insert x.1 x.2) d.declarations).entries = read := by
    rw [hd, OrderedMap.entries_foldl_insert (by simpa using hn)]
    rfl
  refine ⟨rfl, ?_, ?_⟩
  · unfold OrderedMap.keys
    rw [he, hk]
  · intro k s hm
    rw [OrderedMap.get?_eq_some_iff, he] at hm
    obtain ⟨⟨_, y⟩, hy, rfl, hs⟩ := mem_of_forall₂ hread hm
    exact ⟨y, OrderedMap.get?_eq_some_iff.mpr hy, hs⟩

/-! ## Shells -/

/-- The model of a declaration that has an identity, and neither columns nor relations. -/
structure IsShell (settings : Settings) (k : String) (s : ModelDeclaration) (m : Model) : Prop where
  key : m.key = k
  className : m.className = (identity settings k).className
  namespaceName : m.namespaceName = (identity settings k).namespaceName
  path : m.path = (identity settings k).path
  columns : m.columns = .empty
  relations : m.relations = .empty
  autoId : m.autoId = s.autoId
  factory : m.factory = s.factoryEnabled

theorem modelShell_ok {before : List Model} {key : String} {s : ModelDeclaration} {m : Model}
    (h : modelShell settings before key s = .ok m) : IsShell settings key s m ∧ ∀ o ∈ before, o.table ≠ m.table := by
  unfold modelShell at h
  dsimp only at h
  split at h
  · cases h
  · rename_i hc
    split at h
    · cases h
    · rename_i ht
      obtain ⟨type, _, h⟩ := bind_eq_ok.mp h
      obtain rfl := pure_eq_ok.mp h
      refine ⟨⟨rfl, rfl, rfl, rfl, rfl, rfl, rfl, rfl⟩, fun o ho heq => ?_⟩
      exact List.find?_eq_none.mp ht o ho (beq_iff_eq.mpr heq)

theorem shells_ok {xs : List (String × ModelDeclaration)} {before shells : List Model}
    (h : xs.foldlM (fun shells (key, s) => return shells ++ [← modelShell settings shells key s]) before = .ok shells)
    (hb : before.Pairwise fun m n => m.table ≠ n.table) :
    ∃ made, shells = before ++ made ∧ List.Forall₂ (fun x m => IsShell settings x.1 x.2 m) xs made ∧
      shells.Pairwise fun m n => m.table ≠ n.table := by
  -- A shell is checked against those before it alone, so the distinct tables are carried along the list.
  induction xs generalizing before with
  | nil =>
    rw [List.foldlM_nil, pure_eq_ok] at h
    subst h
    exact ⟨[], by simp, .nil, hb⟩
  | cons x rest ih =>
    rw [List.foldlM_cons, bind_eq_ok] at h
    obtain ⟨next, hx, h⟩ := h
    obtain ⟨m, hm, hx⟩ := bind_eq_ok.mp hx
    obtain rfl := pure_eq_ok.mp hx
    obtain ⟨hshell, ht⟩ := modelShell_ok hm
    have hb' : (before ++ [m]).Pairwise fun m n => m.table ≠ n.table := by
      refine List.pairwise_append.mpr ⟨hb, List.pairwise_singleton _ _, fun o ho n hn => ?_⟩
      obtain rfl := List.mem_singleton.mp hn
      exact ht o ho
    obtain ⟨made, hmade, hall, hp⟩ := ih h hb'
    exact ⟨m :: made, by simp [hmade], .cons hshell hall, hp⟩

/-- No two models share a table. -/
def Draft.TablesDistinct (d : Draft) : Prop :=
  (d.models.values.map Model.table).Nodup

/-- What holds of the models before they have places. -/
structure Shelled (d : Draft) : Prop where
  keys : d.models.keys = d.declarations.keys
  shell : ∀ k m, d.models.get? k = some m → ∃ s, d.declarations.get? k = some s ∧ IsShell d.settings k s m
  tables : d.TablesDistinct

theorem makeShells_ok (hd : d.models = .empty) (h : makeShells d = .ok e) :
    e = { d with models := e.models } ∧ Shelled e := by
  obtain ⟨shells, hs, h⟩ := bind_eq_ok.mp h
  obtain rfl := pure_eq_ok.mp h
  obtain ⟨made, hmade, hall, hp⟩ := shells_ok hs .nil
  obtain rfl : shells = made := hmade
  have hkeys : shells.map Model.key = d.declarations.entries.map Prod.fst := map_eq_of_forall₂ (fun hx => IsShell.key hx) hall
  have he : (shells.foldl (fun m shell => m.insert shell.key shell) d.models).entries =
      shells.map fun m => (m.key, m) := by
    have hn : ((shells.map fun m => (m.key, m)).map Prod.fst).Nodup := by
      rw [List.map_map]
      exact hkeys ▸ d.declarations.nodup
    have hf : ((shells.map fun m => (m.key, m)).foldl (fun m (k, v) => m.insert k v) d.models).entries =
        d.models.entries ++ shells.map fun m => (m.key, m) :=
      OrderedMap.entries_foldl_insert (by rw [hd]; exact hn)
    rw [List.foldl_map] at hf
    rw [hf, hd]
    rfl
  refine ⟨rfl, ?_, ?_, ?_⟩
  · unfold OrderedMap.keys
    rw [he, ← hkeys, List.map_map]
    rfl
  · intro k m hm
    rw [OrderedMap.get?_eq_some_iff, he] at hm
    obtain ⟨m', hm', heq⟩ := List.mem_map.mp hm
    obtain ⟨rfl, rfl⟩ := Prod.mk.inj heq
    obtain ⟨⟨j, s⟩, hs, hshell⟩ := mem_of_forall₂ hall hm'
    obtain rfl := hshell.key
    exact ⟨s, OrderedMap.get?_eq_some_iff.mpr hs, hshell⟩
  · unfold Draft.TablesDistinct OrderedMap.values
    rw [he, List.map_map, List.map_map]
    exact List.pairwise_map.mpr hp

/-! ## Places -/

theorem names_linesOf (k : String) (s : ModelDeclaration) :
    (((linesOf k s).filter fun l => (DeclaredRelation.kindOf? l.call).isSome).map DeclaredLine.name) =
      (relationLines s).map Prod.fst := by
  unfold linesOf relationLines
  induction s.columns.entries with
  | nil => rfl
  | cons x rest ih =>
    obtain ⟨name, line⟩ := x
    cases line with
    | none => exact ih
    | some text =>
      have hline : Shorthand.Call.ofLine (some text) = .parse text := rfl
      cases hk : DeclaredRelation.kindOf? (.parse text) with
      | none => simpa [List.filterMap_cons, hline, hk] using ih
      | some kind => simpa [List.filterMap_cons, hline, hk] using ih

theorem names_lines (d : Draft) (k : String) :
    (((d.lines.filter fun l => (DeclaredRelation.kindOf? l.call).isSome).filter (·.model = k)).map DeclaredLine.name) =
      (d.relationLines k).map Prod.fst := by
  have hl : d.lines.filter (·.model = k) = (d.declarations.get? k).elim [] (linesOf k) :=
    d.declarations.filter_flatMap (g := linesOf) (fun _ _ _ => model_of_mem_linesOf) k
  rw [List.filter_comm, hl]
  unfold Draft.relationLines
  cases d.declarations.get? k with
  | none => rfl
  | some s => exact names_linesOf k s

/-- Reserves the place of one relation. -/
def reserveLine (d : Draft) (l : DeclaredLine) : Draft :=
  d.modifyModel l.model fun m => { m with relations := m.relations.reserve l.name }

/-- A model with places for relations. -/
def withPlaces (names : List String) (m : Model) : Model :=
  { m with relations := names.foldl Slots.reserve m.relations }

theorem foldl_reserveLine (ls : List DeclaredLine) (d : Draft) :
    ls.foldl reserveLine d = { d with models := (ls.foldl reserveLine d).models } ∧
      (ls.foldl reserveLine d).models.keys = d.models.keys := by
  induction ls generalizing d with
  | nil => exact ⟨rfl, rfl⟩
  | cons l rest ih =>
    obtain ⟨hr, hk⟩ := ih (reserveLine d l)
    exact ⟨hr, hk.trans (OrderedMap.keys_modify _ _ _)⟩

theorem get?_foldl_reserveLine (ls : List DeclaredLine) (d : Draft) (k : String) :
    (ls.foldl reserveLine d).models.get? k =
      (d.models.get? k).map (withPlaces ((ls.filter (·.model = k)).map DeclaredLine.name)) := by
  induction ls generalizing d with
  | nil => exact (congrFun Option.map_id _).symm
  | cons l rest ih =>
    rw [List.foldl_cons, ih, reserveLine, Draft.get?_modifyModel]
    by_cases hk : k = l.model
    · subst hk
      rw [if_pos rfl, List.filter_cons_of_pos (by simp), Option.map_map]
      rfl
    · rw [if_neg hk, List.filter_cons_of_neg (by simpa using Ne.symm hk)]

/-- Places are reserved in the models, and nothing else changes. -/
theorem reserveRelations_eq (d : Draft) : reserveRelations d = { d with models := (reserveRelations d).models } ∧
    (reserveRelations d).models.keys = d.models.keys :=
  foldl_reserveLine _ d

theorem get?_reserveRelations (d : Draft) (k : String) : (reserveRelations d).models.get? k =
    (d.models.get? k).map (withPlaces ((d.relationLines k).map Prod.fst)) := by
  rw [← names_lines d k]
  exact get?_foldl_reserveLine _ d k

theorem sound_withPlaces {lines : List (String × RelationKind)} {keys : List String} {k : String} {s : ModelDeclaration}
    {m : Model} (hm : IsShell settings k s m) (hn : (lines.map Prod.fst).Nodup)
    (ha : s.autoId = true → ∀ kind, ("id", kind) ∉ lines) : Sound lines keys (withPlaces (lines.map Prod.fst) m) := by
  have hr : (withPlaces (lines.map Prod.fst) m).relations = (lines.map Prod.fst).foldl Slots.reserve .empty := by
    rw [withPlaces, hm.relations]
  have hc : (withPlaces (lines.map Prod.fst) m).columns = .empty := hm.columns
  refine ⟨?_, fun h => ?_, fun h => ?_, fun h => ?_, fun _ h => ?_, fun h => ?_, fun h => ha (hm.autoId.symm.trans h)⟩
  · rw [hr, Slots.keys_foldl_reserve (by exact hn)]
    rfl
  · rw [hr, Slots.get?_foldl_reserve] at h
    cases h
  · rw [hr, Slots.get?_foldl_reserve] at h
    cases h
  · rw [hc] at h
    cases h
  · rw [hc] at h
    cases h
  · rw [hc] at h
    exact absurd h List.not_mem_nil

/-! ## Foundations -/

/-- What holds of the draft of a schema once its relations have their places. -/
structure Founded (settings : Settings) (schema : SchemaDeclaration) (d : Draft) : Prop where
  rest : d = { Draft.start settings schema with declarations := d.declarations, models := d.models }
  read : ReadFrom schema d.declarations
  sound : d.Sound
  tables : d.TablesDistinct
  identity : ∀ k m, d.models.get? k = some m →
    m.className = (identity settings k).className ∧ m.namespaceName = (identity settings k).namespaceName
  autoId : ∀ k m s, d.models.get? k = some m → d.declarations.get? k = some s → m.autoId = s.autoId

variable {schema : SchemaDeclaration}

theorem Founded.along {E : List (String × RelationKind) → List String → Model → Model → Prop}
    (hd : Founded settings schema d) (h : Along E d e) (sound : e.Sound)
    (same : ∀ {lines keys m n}, E lines keys m n → SameIdentity m n) : Founded settings schema e where
  rest := by rw [h.rest, hd.rest]
  read := h.declarations ▸ hd.read
  sound := sound
  tables := by
    unfold Draft.TablesDistinct
    rw [OrderedMap.map_values_eq h.keys fun k m n hm hn => (h.sameIdentity same hm hn).table]
    exact hd.tables
  identity k n hn := by
    obtain ⟨m, hm, _⟩ := h.back hn
    have hs := h.sameIdentity same hm hn
    rw [hs.className, hs.namespaceName]
    exact hd.identity k m hm
  autoId k n s hn hs := by
    obtain ⟨m, hm, _⟩ := h.back hn
    rw [(h.sameIdentity same hm hn).autoId]
    exact hd.autoId k m s hm (h.declarations ▸ hs)

theorem Founded.declared (hd : Founded settings schema d) (h : Declared d e) : Founded settings schema e :=
  hd.along h (hd.sound.declared h) Declaring.sameIdentity

theorem Founded.edited {stages : List Stage} (hd : Founded settings schema d) (h : Edited stages d e) : Founded settings schema e :=
  hd.along h (hd.sound.edited h) Edit.sameIdentity

/-- No relation is there, and no column, nor is any awaited. -/
def Draft.Bare (d : Draft) : Prop :=
  ∀ k m, d.models.get? k = some m → m.columns = .empty ∧ ∀ n, m.relations.get? n = none

/-- A key that is added is not the name of a relation. -/
theorem not_mem_relationLines_id {k : String} {y : Yaml} {s : ModelDeclaration} (h : modelDeclaration k y = .ok s)
    (ha : s.autoId = true) (kind : RelationKind) : ("id", kind) ∉ relationLines s := by
  obtain ⟨⟨rest, hs⟩, _⟩ := startsWithKey_of_autoId h ha
  intro hl
  obtain ⟨line, hline, hk⟩ := mem_relationLines_iff.mp hl
  have hnone : s.columns.get? "id" = some none := OrderedMap.get?_eq_some_iff.mpr (hs ▸ List.mem_cons_self)
  obtain rfl := Option.some_inj.mp (hline.symm.trans hnone)
  cases hk

theorem founded_of_shelled (hr : d = { Draft.start settings schema with declarations := d.declarations, models := d.models })
    (hread : ReadFrom schema d.declarations) (hd : Shelled d) :
    Founded settings schema (reserveRelations d) ∧ (reserveRelations d).Bare := by
  have hsettings : d.settings = settings := by rw [hr]; rfl
  obtain ⟨he, hkeys⟩ := reserveRelations_eq d
  have hdecl : (reserveRelations d).declarations = d.declarations := by rw [he]
  have hback : ∀ k n, (reserveRelations d).models.get? k = some n → ∃ m s, d.models.get? k = some m ∧
      d.declarations.get? k = some s ∧ IsShell settings k s m ∧ n = withPlaces ((d.relationLines k).map Prod.fst) m := by
    intro k n hn
    rw [get?_reserveRelations] at hn
    obtain ⟨m, hm, rfl⟩ := Option.map_eq_some_iff.mp hn
    obtain ⟨s, hs, hshell⟩ := hd.shell k m hm
    exact ⟨m, s, hm, hs, hsettings ▸ hshell, rfl⟩
  refine ⟨⟨?_, hdecl ▸ hread, ⟨?_, ?_, ?_⟩, ?_, ?_, ?_⟩, ?_⟩
  · rw [he, hr]
  · rw [hkeys, hdecl, hd.keys]
  · intro k n hn
    obtain ⟨m, _, _, _, hm, rfl⟩ := hback k n hn
    exact hm.key
  · intro k n hn
    obtain ⟨m, s, _, hs, hm, rfl⟩ := hback k n hn
    obtain ⟨y, _, hy⟩ := hread.declaration k s hs
    have hl : (reserveRelations d).relationLines k = d.relationLines k := by
      unfold Draft.relationLines; rw [hdecl]
    have hlines : d.relationLines k = relationLines s := by
      unfold Draft.relationLines; rw [hs]; rfl
    rw [hl]
    exact sound_withPlaces hm (d.relationLines_nodup k) (hlines ▸ not_mem_relationLines_id hy)
  · unfold Draft.TablesDistinct
    rw [OrderedMap.map_values_eq hkeys]
    · exact hd.tables
    · intro k m n hm hn
      obtain ⟨m', _, hm', _, _, rfl⟩ := hback k n hn
      obtain rfl := Option.some_inj.mp (hm.symm.trans hm')
      rfl
  · intro k n hn
    obtain ⟨m, _, _, _, hm, rfl⟩ := hback k n hn
    exact ⟨hm.className, hm.namespaceName⟩
  · intro k n s hn hs
    obtain ⟨m, s', _, hs', hm, rfl⟩ := hback k n hn
    obtain rfl := Option.some_inj.mp ((hdecl ▸ hs).symm.trans hs')
    exact hm.autoId
  · intro k n hn
    obtain ⟨m, _, _, _, hm, rfl⟩ := hback k n hn
    refine ⟨hm.columns, fun name => ?_⟩
    change (((d.relationLines k).map Prod.fst).foldl Slots.reserve m.relations).get? name = none
    rw [Slots.get?_foldl_reserve, hm.relations]
    rfl

theorem shelled_of_completes (h : Completes [.quickModels, .modelShells] (.start settings schema) d) :
    d = { Draft.start settings schema with declarations := d.declarations, models := d.models } ∧
      ReadFrom schema d.declarations ∧ Shelled d := by
  obtain ⟨d₁, h₁, d₂, h₂, rfl⟩ := h
  obtain ⟨hr₁, hread⟩ := readDeclarations_ok rfl (Resolve.update_run_ok.mp h₁)
  obtain ⟨hr₂, hshell⟩ := makeShells_ok (by rw [hr₁]; rfl) (Resolve.update_run_ok.mp h₂)
  have hdecl : d₂.declarations = d₁.declarations := by rw [hr₂]
  exact ⟨by rw [hr₂, hr₁], hdecl ▸ hread, hshell⟩

theorem founded_of_completes
    (h : Completes [.quickModels, .modelShells, .relationReservations] (.start settings schema) d) :
    Founded settings schema d ∧ d.Bare := by
  obtain ⟨d₁, h₁, d₂, h₂, d₃, h₃, rfl⟩ := h
  obtain rfl := Resolve.modify_run_ok.mp h₃
  obtain ⟨hrest, hread, hshell⟩ := shelled_of_completes ⟨d₁, h₁, d₂, h₂, rfl⟩
  exact founded_of_shelled hrest hread hshell

/-! ## Faults -/

theorem failsInSchema_quickModels : Resolve.FailsInSchema Pass.quickModels.body :=
  .update _

theorem failsInSchema_modelShells : Resolve.FailsInSchema Pass.modelShells.body :=
  .update _

theorem failsInSchema_relationReservations : Resolve.FailsInSchema Pass.relationReservations.body :=
  .modify _

end Schemata.Resolution
