import Schemata.Proofs.Resolution.Columns
import Schemata.Proofs.Resolution.Reordering

/-!
# Declarations in another order

The passes up to that of columns come to the models one by one and read no model but the one that they come to, so that the
models are the same in any order of their declarations.
-/

namespace Schemata.Resolution

variable {d e d' : Draft} {settings : Settings} {schema schema' : SchemaDeclaration}

/-! ## Declarations -/

theorem quickModels_iff : Pass.quickModels.body (.start settings schema) = .ok () e ↔
    ∃ read, schema.models.entries.mapM (fun (key, value) => return (key, ← modelDeclaration key value)) = .ok read ∧
      e = { Draft.start settings schema with declarations := .ofList read } := by
  refine Resolve.update_run_ok.trans (bind_eq_ok.trans (exists_congr fun read => and_congr .rfl ?_))
  exact pure_eq_ok.trans eq_comm

theorem nodup_read {read : List (String × ModelDeclaration)}
    (h : schema.models.entries.mapM (fun (key, value) => return (key, ← modelDeclaration key value)) = .ok read) :
    (read.map Prod.fst).Nodup := by
  have hk : read.map Prod.fst = schema.models.entries.map Prod.fst := map_eq_of_forall₂ And.left (mapM_keyed_ok h)
  exact hk ▸ schema.models.nodup

/-- Schemas that differ in the order of their models alone. -/
structure Reordered (schema schema' : SchemaDeclaration) : Prop where
  rootNamespace : schema'.rootNamespace = schema.rootNamespace
  models : schema.models.entries.Perm schema'.models.entries
  migrations : schema'.migrations = schema.migrations

theorem reordered_quickModels (h : Reordered schema schema') (hrun : Pass.quickModels.body (.start settings schema) = .ok () e) :
    ∃ e', Pass.quickModels.body (.start settings schema') = .ok () e' ∧ e.Alike e' := by
  obtain ⟨read, hr, rfl⟩ := quickModels_iff.mp hrun
  obtain ⟨read', hr', hp⟩ := mapM_perm h.models hr
  refine ⟨_, quickModels_iff.mpr ⟨read', hr', rfl⟩, rfl, h.migrations, fun k => ?_, fun _ => rfl, fun _ => rfl⟩
  have hn := nodup_read hr
  refine OrderedMap.get?_eq_of_perm ?_ k
  dsimp only
  rw [OrderedMap.entries_ofList hn, OrderedMap.entries_ofList ((hp.map Prod.fst).nodup hn)]
  exact hp

/-! ## Shells -/

/-- Models that may stand side by side: neither their classes nor their tables are the same. -/
def MayMeet (m n : Model) : Prop :=
  Text.lower m.className ≠ Text.lower n.className ∧ m.table ≠ n.table

instance : Std.Symm MayMeet where
  symm _ _ h := ⟨h.1.symm, h.2.symm⟩

theorem modelShell_iff {before : List Model} {key : String} {s : ModelDeclaration} {m : Model} :
    modelShell settings before key s = .ok m ↔ modelShell settings [] key s = .ok m ∧ ∀ o ∈ before, MayMeet o m := by
  constructor
  · intro h
    unfold modelShell at h
    dsimp only at h
    split at h
    · cases h
    · rename_i hclass
      split at h
      · cases h
      · rename_i htable
        refine ⟨h, fun o ho => ?_⟩
        obtain ⟨type, _, h⟩ := bind_eq_ok.mp h
        obtain rfl := pure_eq_ok.mp h
        exact ⟨fun heq => List.find?_eq_none.mp hclass o ho (beq_iff_eq.mpr heq),
          fun heq => List.find?_eq_none.mp htable o ho (beq_iff_eq.mpr heq)⟩
  · rintro ⟨h, hb⟩
    obtain ⟨type, htype, h⟩ := bind_eq_ok.mp h
    obtain rfl := pure_eq_ok.mp h
    unfold modelShell
    dsimp only
    rw [List.find?_eq_none.mpr fun o ho heq => (hb o ho).1 (beq_iff_eq.mp heq),
      List.find?_eq_none.mpr fun o ho heq => (hb o ho).2 (beq_iff_eq.mp heq)]
    exact bind_eq_ok.mpr ⟨type, htype, rfl⟩

/-- Shells are made one by one, and no two of them may be in each other's way. -/
theorem shells_iff {xs : List (String × ModelDeclaration)} {before shells : List Model} (hb : before.Pairwise MayMeet) :
    xs.foldlM (fun shells (key, s) => return shells ++ [← modelShell settings shells key s]) before = .ok shells ↔
      ∃ made, shells = before ++ made ∧ xs.mapM (fun x => modelShell settings [] x.1 x.2) = .ok made ∧
        shells.Pairwise MayMeet := by
  induction xs generalizing before with
  | nil =>
    rw [List.foldlM_nil, pure_eq_ok]
    constructor
    · rintro rfl
      exact ⟨[], by simp, rfl, hb⟩
    · rintro ⟨_, rfl, hmade, _⟩
      obtain rfl := pure_eq_ok.mp hmade
      simp
  | cons x rest ih =>
    obtain ⟨key, s⟩ := x
    have hnext : ∀ {m : Model}, (∀ o ∈ before, MayMeet o m) → (before ++ [m]).Pairwise MayMeet := fun hm =>
      List.pairwise_append.mpr ⟨hb, List.pairwise_singleton _ _, fun o ho n hn => List.mem_singleton.mp hn ▸ hm o ho⟩
    rw [List.foldlM_cons, bind_eq_ok]
    constructor
    · rintro ⟨next, hx, h⟩
      obtain ⟨m, hm, hx⟩ := bind_eq_ok.mp hx
      obtain rfl := pure_eq_ok.mp hx
      obtain ⟨hshell, hmeet⟩ := modelShell_iff.mp hm
      obtain ⟨made, rfl, hmade, hp⟩ := (ih (hnext hmeet)).mp h
      exact ⟨m :: made, by simp, mapM_eq_ok.mpr (.cons hshell (mapM_eq_ok.mp hmade)), hp⟩
    · rintro ⟨made, rfl, hmade, hp⟩
      obtain ⟨m, others, hm, hothers, rfl⟩ := List.forall₂_cons_left_iff.mp (mapM_eq_ok.mp hmade)
      have hmeet : ∀ o ∈ before, MayMeet o m := fun o ho => (List.pairwise_append.mp hp).2.2 o ho m List.mem_cons_self
      refine ⟨before ++ [m], bind_eq_ok.mpr ⟨m, modelShell_iff.mpr ⟨hm, hmeet⟩, rfl⟩, (ih (hnext hmeet)).mpr ?_⟩
      exact ⟨others, by simp, mapM_eq_ok.mpr hothers, hp⟩

theorem entries_shells {xs : List (String × ModelDeclaration)} {shells : List Model} (hn : (xs.map Prod.fst).Nodup)
    (h : xs.mapM (fun x => modelShell settings [] x.1 x.2) = .ok shells) :
    (OrderedMap.ofList (shells.map fun m => (m.key, m))).entries = shells.map fun m => (m.key, m) := by
  have hkeys : shells.map Model.key = xs.map Prod.fst :=
    map_eq_of_forall₂ (P := fun x m => modelShell settings [] x.1 x.2 = .ok m) (fun hx => (modelShell_ok hx).1.key)
      (mapM_eq_ok.mp h)
  refine OrderedMap.entries_ofList ?_
  rw [List.map_map]
  exact hkeys ▸ hn

theorem modelShells_iff (hd : d.models = .empty) : Pass.modelShells.body d = .ok () e ↔
    ∃ shells, d.declarations.entries.mapM (fun x => modelShell d.settings [] x.1 x.2) = .ok shells ∧ shells.Pairwise MayMeet ∧
      e = { d with models := .ofList (shells.map fun m => (m.key, m)) } := by
  have hmodels : ∀ shells : List Model, shells.foldl (fun m shell => m.insert shell.key shell) d.models =
      .ofList (shells.map fun m => (m.key, m)) := by
    intro shells
    rw [hd, OrderedMap.ofList, List.foldl_map]
  refine Resolve.update_run_ok.trans (bind_eq_ok.trans ?_)
  constructor
  · rintro ⟨shells, hs, he⟩
    obtain ⟨_, rfl, hmade, hp⟩ := (shells_iff .nil).mp hs
    obtain rfl := pure_eq_ok.mp he
    exact ⟨_, hmade, hp, congrArg (fun models => { d with models }) (hmodels _)⟩
  · rintro ⟨shells, hmade, hp, rfl⟩
    refine ⟨shells, (shells_iff .nil).mpr ⟨shells, rfl, hmade, hp⟩, pure_eq_ok.mpr ?_⟩
    exact congrArg (fun models => { d with models }) (hmodels _)

/-- The shells are the same in any order of the declarations, and no two of their classes differ in case alone. -/
theorem reordered_modelShells (hd : d.models = .empty) (hd' : d'.models = .empty) (h : d.Alike d')
    (hrun : Pass.modelShells.body d = .ok () e) : ∃ e', Pass.modelShells.body d' = .ok () e' ∧ e.Alike e' := by
  obtain ⟨shells, hmade, hp, rfl⟩ := (modelShells_iff hd).mp hrun
  obtain ⟨shells', hmade', hperm⟩ := mapM_perm (OrderedMap.entries_perm h.declarations) hmade
  have hp' := (hperm.pairwise_iff (symm_of MayMeet)).mp hp
  rw [← h.settings] at hmade'
  refine ⟨_, (modelShells_iff hd').mpr ⟨shells', hmade', hp', rfl⟩, h.settings, h.tables, h.declarations, fun k => ?_, h.migrations⟩
  refine congrArg (Option.map _) (OrderedMap.get?_eq_of_perm ?_ k)
  dsimp only
  rw [entries_shells d.declarations.nodup hmade, entries_shells d'.declarations.nodup hmade']
  exact hperm.map _

theorem classesDistinct_modelShells (hd : d.models = .empty) (hrun : Pass.modelShells.body d = .ok () e) :
    e.ClassesDistinct := by
  obtain ⟨shells, hmade, hp, rfl⟩ := (modelShells_iff hd).mp hrun
  intro k k' m m' hm hm' heq
  rw [OrderedMap.get?_eq_some_iff, entries_shells d.declarations.nodup hmade] at hm hm'
  obtain ⟨_, hmem, hk⟩ := List.mem_map.mp hm
  obtain ⟨rfl, rfl⟩ := Prod.mk.inj hk
  obtain ⟨_, hmem', hk'⟩ := List.mem_map.mp hm'
  obtain ⟨rfl, rfl⟩ := Prod.mk.inj hk'
  by_contra hne
  exact (hp.forall hmem hmem' fun hmm' => hne (congrArg Model.key hmm')).1 heq

/-! ## Places -/

theorem withoutParents_withPlaces (names : List String) (m : Model) :
    (withPlaces names m).withoutParents = withPlaces names m.withoutParents := by
  have hfold : ∀ relations : Slots Relation, (names.foldl Slots.reserve relations).mapValues Relation.withoutParents =
      names.foldl Slots.reserve (relations.mapValues Relation.withoutParents) := by
    induction names with
    | nil => exact fun _ => rfl
    | cons name rest ih =>
      intro relations
      rw [List.foldl_cons, List.foldl_cons, ih, Slots.mapValues_reserve]
  exact congrArg (fun relations => { m with relations }) (hfold m.relations)

theorem reordered_relationReservations (h : d.Alike d') (hrun : Pass.relationReservations.body d = .ok () e) :
    ∃ e', Pass.relationReservations.body d' = .ok () e' ∧ e.Alike e' := by
  obtain rfl := Resolve.modify_run_ok.mp hrun
  refine ⟨_, Resolve.modify_run_ok.mpr rfl, ?_⟩
  have hlines : ∀ k, d'.relationLines k = d.relationLines k := by
    intro k
    unfold Draft.relationLines
    rw [h.declarations]
  rw [(reserveRelations_eq d).1, (reserveRelations_eq d').1]
  refine ⟨h.settings, h.tables, h.declarations, fun k => ?_, h.migrations⟩
  have hplaces : ∀ names (m : Option Model), (m.map (withPlaces names)).map Model.withoutParents =
      (m.map Model.withoutParents).map (withPlaces names) := by
    intro names m
    cases m with
    | none => rfl
    | some m => exact congrArg some (withoutParents_withPlaces names m)
  change ((reserveRelations d').models.get? k).map _ = ((reserveRelations d).models.get? k).map _
  rw [get?_reserveRelations, get?_reserveRelations, hlines, hplaces, hplaces, h.models]

/-! ## Columns -/

/-- A model without relations has no parents to it. -/
theorem withoutParents_eq_self {m : Model} (h : ∀ n, m.relations.get? n = none) : m.withoutParents = m := by
  have hself : m.relations.mapValues Relation.withoutParents = m.relations :=
    Slots.mapValues_eq_self fun k v hk => absurd (hk.symm.trans (h k)) (by simp)
  exact congrArg (fun relations => { m with relations }) hself

/-- What is declared stands as it was read, and no relation is resolved, so that there are no parents yet. -/
def Undeclared (xs : List (String × ModelDeclaration)) (d : Draft) : Prop :=
  (∀ x ∈ xs, d.declarations.get? x.1 = some x.2) ∧ ∀ k m, d.models.get? k = some m → ∀ n, m.relations.get? n = none

/-- A turn gives a model its columns, and what follows from them. -/
def PutsColumns (x : String × ModelDeclaration) (d : Draft) (w : String → Model → Model) : Prop :=
  ∃ m primary, d.models.get? x.1 = some m ∧ Derives x.1 x.2 (withLines m x.2.columns.entries) primary ∧
    w = fun k o => if k = x.1 then derived x.2 primary (withLines m x.2.columns.entries) else o

theorem plans_declareColumns : Resolve.Plans Prod.fst Undeclared (fun x => declareColumns x.1 x.2) PutsColumns where
  run {x d e} := by
    constructor
    · intro hf
      obtain ⟨m, hm⟩ := exists_model_of_declareColumns hf
      obtain ⟨primary, hderives, rfl⟩ := (declareColumns_iff hm).mp hf
      exact ⟨_, ⟨m, primary, hm, hderives, rfl⟩, rfl⟩
    · rintro ⟨_, ⟨m, primary, hm, hderives, rfl⟩, rfl⟩
      exact (declareColumns_iff hm).mpr ⟨primary, hderives, rfl⟩
  perm hp h := ⟨fun x hx => h.1 x (hp.mem_iff.mpr hx), h.2⟩
  keep {x rest d w} h hw := by
    obtain ⟨m₀, primary, hm₀, hderives, rfl⟩ := hw
    have hdeclared := declareColumns_declared (h.1 x List.mem_cons_self) ((declareColumns_iff hm₀).mpr ⟨primary, hderives, rfl⟩)
    refine ⟨fun y hy => h.1 y (List.mem_cons_of_mem x hy), fun k n hn => ?_⟩
    obtain ⟨m, hm, _⟩ := hdeclared.back hn
    refine hdeclared.keeps (P := fun m => ∀ n, m.relations.get? n = none) (fun hs hP => ?_) hm hn (h.2 k m hm)
    cases hs <;> exact hP
  blind {x d _} := by
    rintro ⟨m, primary, _, _, rfl⟩ k o o' ho
    dsimp only
    split
    · rfl
    · exact ho
  alike {x rest rest' d d' _} h h' halike := by
    rintro ⟨m, primary, hm, hderives, rfl⟩
    obtain ⟨m', hm', heq⟩ := halike.exists_model hm
    rw [withoutParents_eq_self (h.2 _ m hm), withoutParents_eq_self (h'.2 _ m' hm')] at heq
    exact ⟨m, primary, heq ▸ hm', hderives, rfl⟩
  apart {x y rest d _ w'} hne _ := by
    rintro ⟨m, primary, _, _, rfl⟩
    unfold PutsColumns
    rw [Draft.get?_mapModels]
    simp only [if_neg hne.symm, Option.map_id']
  swap {x y rest d _ _} hne _ := by
    rintro ⟨m, _, _, _, rfl⟩ ⟨m', _, _, _, rfl⟩ k o _
    dsimp only
    by_cases hk : k = x.1
    · rw [if_pos hk, if_neg fun hy => hne (hk.symm.trans hy), if_pos hk]
    · rw [if_neg hk, if_neg hk]

theorem reordered_columns (hd : d.Bare) (hd' : d'.Bare) (h : d.Alike d') (hrun : Pass.columns.body d = .ok () e) :
    ∃ e', Pass.columns.body d' = .ok () e' ∧ e.Alike e' := by
  rw [columns_run] at hrun
  have hregrouped : Resolve.Regrouped Prod.fst d.declarations.entries d'.declarations.entries :=
    .of_perm d.declarations.nodup (OrderedMap.entries_perm h.declarations)
  have hundeclared : ∀ {c : Draft}, c.Bare → Undeclared c.declarations.entries c := fun hc =>
    ⟨fun x hx => OrderedMap.get?_eq_some_iff.mpr hx, fun k m hm => (hc k m hm).2⟩
  obtain ⟨e', he', halike⟩ := plans_declareColumns.commutes.forM_regrouped hregrouped (hundeclared hd) (hundeclared hd') h hrun
  exact ⟨e', he', halike⟩

end Schemata.Resolution
