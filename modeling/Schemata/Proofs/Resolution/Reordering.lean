import Schemata.Proofs.Resolution.Identity
import Schemata.Proofs.Resolution.Run
import Schemata.Proofs.Text

/-!
# Loops in another order

Turns of a loop that belong to different models may change places where each reads nothing that the other writes. So the order of
the models is of no account to the loop, as long as the turns of each model keep theirs.
-/

namespace Schemata

/-- A model apart from the parents of its `morphTo` relations. -/
def Model.withoutParents (m : Model) : Model :=
  { m with relations := m.relations.mapValues Relation.withoutParents }

/-- What pays no heed to parents is the same of models that are the same apart from parents. -/
theorem Model.congr_withoutParents {β : Type} {g : Model → β} (hg : ∀ m, g m.withoutParents = g m) {m n : Model}
    (h : n.withoutParents = m.withoutParents) : g n = g m := by
  rw [← hg, h, hg]

namespace Resolution

variable {α π : Type} {d e d' : Draft}

/-! ## Drafts alike -/

/-- Drafts that hold the same under the same keys, in any order and apart from parents. -/
structure Draft.Alike (d e : Draft) : Prop where
  settings : e.settings = d.settings
  tables : e.schema.migrations = d.schema.migrations
  declarations (k) : e.declarations.get? k = d.declarations.get? k
  models (k) : (e.models.get? k).map Model.withoutParents = (d.models.get? k).map Model.withoutParents
  migrations (table) : e.migrations.get? table = d.migrations.get? table

namespace Draft.Alike

theorem refl (d : Draft) : d.Alike d :=
  ⟨rfl, rfl, fun _ => rfl, fun _ => rfl, fun _ => rfl⟩

theorem symm (h : d.Alike e) : e.Alike d :=
  ⟨h.settings.symm, h.tables.symm, fun k => (h.declarations k).symm, fun k => (h.models k).symm, fun k => (h.migrations k).symm⟩

theorem trans {c : Draft} (h : d.Alike c) (h' : c.Alike e) : d.Alike e where
  settings := h'.settings.trans h.settings
  tables := h'.tables.trans h.tables
  declarations k := (h'.declarations k).trans (h.declarations k)
  models k := (h'.models k).trans (h.models k)
  migrations table := (h'.migrations table).trans (h.migrations table)

instance : IsPreorder Draft Draft.Alike where
  refl := refl
  trans _ _ _ := trans

theorem exists_model (h : d.Alike e) {k : String} {m : Model} (hm : d.models.get? k = some m) :
    ∃ n, e.models.get? k = some n ∧ n.withoutParents = m.withoutParents := by
  have hk := h.models k
  rw [hm] at hk
  exact Option.map_eq_some_iff.mp hk

theorem keys_perm (h : d.Alike e) : d.models.keys.Perm e.models.keys := by
  refine (List.perm_ext_iff_of_nodup d.models.keys_nodup e.models.keys_nodup).mpr fun k => ?_
  rw [← not_iff_not, ← OrderedMap.get?_eq_none_iff, ← OrderedMap.get?_eq_none_iff,
    ← Option.map_eq_none_iff (f := Model.withoutParents), ← h.models, Option.map_eq_none_iff]

theorem values_perm (h : d.Alike e) : (d.models.values.map Model.withoutParents).Perm (e.models.values.map Model.withoutParents) := by
  have hentries := OrderedMap.entries_perm (m := d.models.mapEntries fun _ m => m.withoutParents)
    (n := e.models.mapEntries fun _ m => m.withoutParents) fun k => by
      rw [OrderedMap.get?_mapEntries, OrderedMap.get?_mapEntries]
      exact h.models k
  have hvalues := hentries.map Prod.snd
  unfold OrderedMap.mapEntries at hvalues
  simp only [List.map_map] at hvalues
  unfold OrderedMap.values
  rw [List.map_map, List.map_map]
  exact hvalues

end Draft.Alike

/-! ## Changes of all models -/

/-- Changes every model by its key. -/
def Draft.mapModels (d : Draft) (w : String → Model → Model) : Draft :=
  { d with models := d.models.mapEntries w }

theorem Draft.mapModels_mapModels (d : Draft) (w w' : String → Model → Model) :
    (d.mapModels w).mapModels w' = d.mapModels fun k m => w' k (w k m) :=
  congrArg (fun models => { d with models }) (d.models.mapEntries_mapEntries w w')

theorem Draft.get?_mapModels (d : Draft) (w : String → Model → Model) (k : String) :
    (d.mapModels w).models.get? k = (d.models.get? k).map (w k) :=
  d.models.get?_mapEntries w k

/-- A change that pays no heed to parents. -/
def Blind (w : String → Model → Model) : Prop :=
  ∀ ⦃k m n⦄, n.withoutParents = m.withoutParents → (w k n).withoutParents = (w k m).withoutParents

theorem Draft.Alike.mapModels {w : String → Model → Model} (h : d.Alike e) (hw : Blind w) :
    (d.mapModels w).Alike (e.mapModels w) where
  settings := h.settings
  tables := h.tables
  declarations := h.declarations
  models k := by
    rw [get?_mapModels, get?_mapModels]
    have hk := h.models k
    cases hm : d.models.get? k with
    | none =>
      rw [hm] at hk
      rw [Option.map_eq_none_iff.mp hk]
    | some m =>
      rw [hm] at hk
      obtain ⟨n, hn, heq⟩ := Option.map_eq_some_iff.mp hk
      rw [hn]
      exact congrArg some (hw heq)
  migrations := h.migrations

theorem Draft.alike_mapModels {w w' : String → Model → Model}
    (h : ∀ k m, d.models.get? k = some m → (w' k m).withoutParents = (w k m).withoutParents) :
    (d.mapModels w).Alike (d.mapModels w') where
  settings := rfl
  tables := rfl
  declarations _ := rfl
  models k := by
    rw [get?_mapModels, get?_mapModels]
    cases hm : d.models.get? k with
    | none => rfl
    | some m => exact congrArg some (h k m hm)
  migrations _ := rfl

/-! ## Loops -/

namespace Resolve

/-- Two lists hold the same items of each owner, in the same order. -/
def Regrouped [DecidableEq π] (owner : α → π) (xs ys : List α) : Prop :=
  ∀ p, ys.filter (owner · = p) = xs.filter (owner · = p)

/-- Items that have owners of their own are regrouped in any order. -/
theorem Regrouped.of_perm [DecidableEq π] {owner : α → π} {xs ys : List α} (hn : (xs.map owner).Nodup) (h : xs.Perm ys) :
    Regrouped owner xs ys := by
  intro p
  have hp := h.filter (owner · = p)
  have hn : ((xs.filter (owner · = p)).map owner).Nodup := (List.filter_sublist.map owner).nodup hn
  have hp' : ∀ x ∈ xs.filter (owner · = p), owner x = p := fun x hx => of_decide_eq_true (List.mem_filter.mp hx).2
  cases hx : xs.filter (owner · = p) with
  | nil => exact List.nil_perm.mp (hx ▸ hp)
  | cons x rest =>
    cases rest with
    | nil => exact (List.singleton_perm.mp (hx ▸ hp)).symm
    | cons y rest =>
      rw [hx] at hn hp'
      have hxy : owner x = owner y := (hp' x (by simp)).trans (hp' y (by simp)).symm
      simp [hxy] at hn

/-- The turns of a loop may change places unless they have one owner. What a turn needs of a draft, it needs beside the turns that
are left. -/
structure Commutes (owner : α → π) (R : Draft → Draft → Prop) (P : List α → Draft → Prop) (f : α → Resolve Unit) : Prop where
  perm {xs ys d} : xs.Perm ys → P xs d → P ys d
  keep {x rest d e} : P (x :: rest) d → f x d = .ok () e → P rest e
  respect {x rest rest' d d' e} : P (x :: rest) d → P (x :: rest') d' → R d d' → f x d = .ok () e →
    ∃ e', f x d' = .ok () e' ∧ R e e'
  swap {x y rest d c e} : owner x ≠ owner y → P (x :: y :: rest) d → f x d = .ok () c → f y c = .ok () e →
    ∃ c' e', f y d = .ok () c' ∧ f x c' = .ok () e' ∧ R e e'

namespace Commutes

variable {owner : α → π} {R : Draft → Draft → Prop} {P : List α → Draft → Prop} {f : α → Resolve Unit}

theorem respects (h : Commutes owner R P f) {xs : List α} (hd : P xs d) (hd' : P xs d') (hR : R d d')
    (hf : xs.forM f d = .ok () e) : ∃ e', xs.forM f d' = .ok () e' ∧ R e e' := by
  induction xs generalizing d d' with
  | nil => exact ⟨d', rfl, forM_nil_run_ok.mp hf ▸ hR⟩
  | cons x rest ih =>
    obtain ⟨c, hx, hr⟩ := forM_cons_run_ok.mp hf
    obtain ⟨c', hx', hc⟩ := h.respect hd hd' hR hx
    obtain ⟨e', hr', he⟩ := ih (h.keep hd hx) (h.keep hd' hx') hc hr
    exact ⟨e', forM_cons_run_ok.mpr ⟨c', hx', hr'⟩, he⟩

variable [IsPreorder Draft R]

/-- A turn may come before all turns of other owners. -/
theorem advance (h : Commutes owner R P f) {before after : List α} {y : α} (hy : ∀ x ∈ before, owner x ≠ owner y)
    (hd : P (before ++ y :: after) d) (hf : (before ++ y :: after).forM f d = .ok () e) :
    ∃ c e', f y d = .ok () c ∧ (before ++ after).forM f c = .ok () e' ∧ R e e' := by
  induction before generalizing d with
  | nil =>
    obtain ⟨c, hc, he⟩ := forM_cons_run_ok.mp hf
    exact ⟨c, e, hc, he, refl_of R e⟩
  | cons x rest ih =>
    obtain ⟨c, hx, hr⟩ := forM_cons_run_ok.mp hf
    obtain ⟨c₁, e₁, hc₁, he₁, hR₁⟩ := ih (fun z hz => hy z (List.mem_cons_of_mem x hz)) (h.keep hd hx) hr
    have hd' : P (x :: y :: (rest ++ after)) d := h.perm (List.Perm.cons x List.perm_middle) hd
    obtain ⟨c₂, c₃, hc₂, hc₃, hR⟩ := h.swap (hy x List.mem_cons_self) hd' hx hc₁
    -- The rest of the loop goes on from either of the two drafts to which the two turns lead.
    have hleft : P (rest ++ after) c₁ := h.keep (h.keep hd' hx) hc₁
    have hright : P (rest ++ after) c₃ := h.keep (h.keep (h.perm (List.Perm.swap y x _) hd') hc₂) hc₃
    obtain ⟨e₂, he₂, hR₂⟩ := h.respects hleft hright hR he₁
    exact ⟨c₂, e₂, hc₂, forM_cons_run_ok.mpr ⟨c₃, hc₃, he₂⟩, trans_of R hR₁ hR₂⟩

theorem forM_regrouped [DecidableEq π] (h : Commutes owner R P f) {xs ys : List α} (hxy : Regrouped owner xs ys)
    (hd : P xs d) (hd' : P ys d') (hR : R d d') (hf : xs.forM f d = .ok () e) :
    ∃ e', ys.forM f d' = .ok () e' ∧ R e e' := by
  induction ys generalizing xs d d' e with
  | nil =>
    obtain rfl : xs = [] := List.eq_nil_iff_forall_not_mem.mpr fun x hx =>
      List.filter_eq_nil_iff.mp (hxy (owner x)).symm x hx (decide_eq_true rfl)
    exact ⟨d', rfl, forM_nil_run_ok.mp hf ▸ hR⟩
  | cons y rest ih =>
    have hfirst : xs.filter (owner · = owner y) = y :: rest.filter (owner · = owner y) := by
      rw [← hxy (owner y), List.filter_cons_of_pos (by simp)]
    obtain ⟨before, after, rfl, hbefore, _, hafter⟩ := List.filter_eq_cons_iff.mp hfirst
    have hbefore : ∀ x ∈ before, owner x ≠ owner y := fun x hx heq => hbefore x hx (decide_eq_true heq)
    obtain ⟨c, e₁, hc, he₁, hR₁⟩ := h.advance hbefore hd hf
    have hd : P (y :: (before ++ after)) d := h.perm List.perm_middle hd
    obtain ⟨c', hc', hR'⟩ := h.respect hd hd' hR hc
    have hrest : Regrouped owner (before ++ after) rest := by
      intro p
      rw [List.filter_append]
      by_cases hp : owner y = p
      · subst hp
        have hnil : before.filter (owner · = owner y) = [] :=
          List.filter_eq_nil_iff.mpr fun x hx => by simpa using hbefore x hx
        rw [hnil, hafter, List.nil_append]
      · simpa [List.filter_append, hp] using hxy p
    obtain ⟨e', he', hR₂⟩ := ih hrest (h.keep hd hc) (h.keep hd' hc') hR' he₁
    exact ⟨e', forM_cons_run_ok.mpr ⟨c', hc', he'⟩, trans_of R hR₁ hR₂⟩

end Commutes

/-- Each turn of a loop reads off the draft how it changes the models, and reads the same off drafts that are alike and off those
that turns of other owners have left. -/
structure Plans (owner : α → π) (P : List α → Draft → Prop) (f : α → Resolve Unit)
    (plan : α → Draft → (String → Model → Model) → Prop) : Prop where
  run {x d e} : f x d = .ok () e ↔ ∃ w, plan x d w ∧ e = d.mapModels w
  perm {xs ys d} : xs.Perm ys → P xs d → P ys d
  keep {x rest d w} : P (x :: rest) d → plan x d w → P rest (d.mapModels w)
  blind {x d w} : plan x d w → Blind w
  alike {x rest rest' d d' w} : P (x :: rest) d → P (x :: rest') d' → d.Alike d' → plan x d w → plan x d' w
  apart {x y rest d w w'} : owner x ≠ owner y → P (x :: y :: rest) d → plan x d w → (plan y (d.mapModels w) w' ↔ plan y d w')
  swap {x y rest d w w'} : owner x ≠ owner y → P (x :: y :: rest) d → plan x d w → plan y d w' →
    ∀ k m, d.models.get? k = some m → (w k (w' k m)).withoutParents = (w' k (w k m)).withoutParents

theorem Plans.commutes {owner : α → π} {P : List α → Draft → Prop} {f : α → Resolve Unit}
    {plan : α → Draft → (String → Model → Model) → Prop} (h : Plans owner P f plan) : Commutes owner Draft.Alike P f where
  perm := h.perm
  keep hP hf := by
    obtain ⟨w, hw, rfl⟩ := h.run.mp hf
    exact h.keep hP hw
  respect hP hP' hR hf := by
    obtain ⟨w, hw, rfl⟩ := h.run.mp hf
    exact ⟨_, h.run.mpr ⟨w, h.alike hP hP' hR hw, rfl⟩, hR.mapModels (h.blind hw)⟩
  swap hne hP hf hg := by
    obtain ⟨w, hw, rfl⟩ := h.run.mp hf
    obtain ⟨w', hw', rfl⟩ := h.run.mp hg
    have hw₀ := (h.apart hne hP hw).mp hw'
    have hw₁ := (h.apart hne.symm (h.perm (List.Perm.swap _ _ _) hP) hw₀).mpr hw
    refine ⟨_, _, h.run.mpr ⟨w', hw₀, rfl⟩, h.run.mpr ⟨w, hw₁, rfl⟩, ?_⟩
    rw [Draft.mapModels_mapModels, Draft.mapModels_mapModels]
    exact Draft.alike_mapModels (h.swap hne hP hw hw₀)

end Resolve

/-! ## References -/

namespace Draft

/-- No two models have classes that differ in case alone. -/
def ClassesDistinct (d : Draft) : Prop :=
  ∀ ⦃k k' m m'⦄, d.models.get? k = some m → d.models.get? k' = some m' →
    Text.lower m.className = Text.lower m'.className → k = k'

/-- Of the models of a class it is no matter which comes first, since there is only one. -/
theorem find?_className (hd : d.Keyed) (hc : d.ClassesDistinct) {reference k : String} :
    (d.models.values.find? fun m => Text.sameAscii m.className reference).map (·.key) = some k ↔
      ∃ m, d.models.get? k = some m ∧ Text.sameAscii m.className reference = true := by
  rw [Option.map_eq_some_iff]
  constructor
  · rintro ⟨m, hm, rfl⟩
    obtain ⟨j, hj⟩ := OrderedMap.mem_values_iff.mp (List.mem_of_find?_eq_some hm)
    have hkey : m.key = j := hd j m hj
    have hs := List.find?_some hm
    exact ⟨m, hkey ▸ hj, hs⟩
  · rintro ⟨m, hm, hs⟩
    cases hf : d.models.values.find? fun m => Text.sameAscii m.className reference with
    | none => exact absurd hs (List.find?_eq_none.mp hf m (OrderedMap.mem_values_iff.mpr ⟨k, hm⟩))
    | some n =>
      obtain ⟨j, hj⟩ := OrderedMap.mem_values_iff.mp (List.mem_of_find?_eq_some hf)
      have hkey : n.key = j := hd j n hj
      have hs' := List.find?_some hf
      exact ⟨n, rfl, hkey.trans (hc hj hm (lower_eq_of_sameAscii hs' hs))⟩

variable (h : ∀ k, (e.models.get? k).map Model.className = (d.models.get? k).map Model.className)
include h

theorem classesDistinct_congr (hc : d.ClassesDistinct) : e.ClassesDistinct := by
  intro k k' n n' hn hn' heq
  have hk := h k
  have hk' := h k'
  rw [hn] at hk
  rw [hn'] at hk'
  obtain ⟨m, hm, hclass⟩ := Option.map_eq_some_iff.mp hk.symm
  obtain ⟨m', hm', hclass'⟩ := Option.map_eq_some_iff.mp hk'.symm
  exact hc hm hm' (by rw [hclass, hclass', heq])

theorem findModel?_congr (hd : d.Keyed) (he : e.Keyed) (hc : d.ClassesDistinct) : e.findModel? = d.findModel? := by
  funext reference
  have hkeys : e.models.contains reference = d.models.contains reference := by
    rw [Bool.eq_iff_iff, OrderedMap.contains_iff, OrderedMap.contains_iff, ← not_iff_not, ← OrderedMap.get?_eq_none_iff,
      ← OrderedMap.get?_eq_none_iff, ← Option.map_eq_none_iff (f := Model.className), h, Option.map_eq_none_iff]
  unfold findModel?
  rw [hkeys]
  refine congrArg (ite _ _) (Option.ext fun k => ?_)
  rw [find?_className he (classesDistinct_congr h hc), find?_className hd hc]
  have hk := h k
  constructor
  · rintro ⟨n, hn, hs⟩
    rw [hn] at hk
    obtain ⟨m, hm, hclass⟩ := Option.map_eq_some_iff.mp hk.symm
    exact ⟨m, hm, hclass ▸ hs⟩
  · rintro ⟨m, hm, hs⟩
    rw [hm] at hk
    obtain ⟨n, hn, hclass⟩ := Option.map_eq_some_iff.mp hk
    exact ⟨n, hn, hclass ▸ hs⟩

end Draft

/-- Models keep their classes. -/
theorem Draft.ClassesDistinct.along {E : List (String × RelationKind) → List String → Model → Model → Prop}
    (hc : d.ClassesDistinct) (h : Along E d e) (same : ∀ {lines keys m n}, E lines keys m n → SameIdentity m n) :
    e.ClassesDistinct := by
  refine Draft.classesDistinct_congr (fun k => ?_) hc
  cases hm : d.models.get? k with
  | none => rw [OrderedMap.get?_eq_none_iff.mpr (h.keys ▸ OrderedMap.get?_eq_none_iff.mp hm)]
  | some m =>
    obtain ⟨n, hn, _⟩ := h.model hm
    rw [hn]
    exact congrArg some (h.sameIdentity same hm hn).className

theorem Draft.ClassesDistinct.edited {stages : List Stage} (hc : d.ClassesDistinct) (h : Edited stages d e) : e.ClassesDistinct :=
  hc.along h Edit.sameIdentity

/-! ## Lines -/

open Resolve

theorem lines_regrouped (h : ∀ k, e.declarations.get? k = d.declarations.get? k) :
    Regrouped DeclaredLine.model d.lines e.lines := by
  intro k
  have hlines : ∀ c : Draft, c.lines.filter (·.model = k) = (c.declarations.get? k).elim [] (linesOf k) :=
    fun c => c.declarations.filter_flatMap (g := linesOf) (fun _ _ _ => model_of_mem_linesOf) k
  rw [hlines, hlines, h]

/-- The relation lines of a kind do not depend on the order of the models, up to that order. -/
theorem declaredRelations_regrouped (h : ∀ k, e.declarations.get? k = d.declarations.get? k) {kind : RelationKind}
    {ls : List DeclaredRelation} (hls : d.declaredRelations kind = .ok ls) :
    ∃ ls', e.declaredRelations kind = .ok ls' ∧ Regrouped DeclaredRelation.model ls ls' := by
  have hlines := lines_regrouped h
  have hmem : ∀ {l}, l ∈ e.lines → l ∈ d.lines := by
    intro l hl
    have hf : l ∈ e.lines.filter (DeclaredLine.model · = l.model) := List.mem_filter.mpr ⟨hl, decide_eq_true rfl⟩
    rw [hlines] at hf
    exact (List.mem_filter.mp hf).1
  have hparse : ∀ l ∈ e.lines.filter fun l => DeclaredRelation.kindOf? l.call = some kind,
      ∃ x, DeclaredRelation.parse l.model l.name l.call = .ok x := by
    intro l hl
    obtain ⟨hl, hk⟩ := List.mem_filter.mp hl
    obtain ⟨x, _, hx⟩ := exists_mem_of_forall₂ (mapM_eq_ok.mp hls) (List.mem_filter.mpr ⟨hmem hl, hk⟩)
    exact ⟨x, hx⟩
  obtain ⟨ls', hls'⟩ := exists_mapM hparse
  refine ⟨ls', hls', fun k => ?_⟩
  have hmodel : ∀ {l : DeclaredLine} {x : DeclaredRelation}, DeclaredRelation.parse l.model l.name l.call = .ok x →
      decide (x.model = k) = decide (l.model = k) := fun hx => by rw [(DeclaredRelation.parse_ok hx).model]
  have hd := mapM_filter hmodel hls
  have he := mapM_filter hmodel hls'
  rw [List.filter_comm, hlines, ← List.filter_comm, hd] at he
  exact (Except.ok.inj he).symm

theorem declaredRelationsOf_regrouped (h : ∀ k, e.declarations.get? k = d.declarations.get? k) {first second : RelationKind}
    {ls : List DeclaredRelation} (hls : d.declaredRelationsOf first second = .ok ls) :
    ∃ ls', e.declaredRelationsOf first second = .ok ls' ∧ Regrouped DeclaredRelation.model ls ls' := by
  obtain ⟨xs, hx, hls⟩ := bind_eq_ok.mp hls
  obtain ⟨ys, hy, hls⟩ := bind_eq_ok.mp hls
  obtain rfl := pure_eq_ok.mp hls
  obtain ⟨xs', hx', hxs⟩ := declaredRelations_regrouped h hx
  obtain ⟨ys', hy', hys⟩ := declaredRelations_regrouped h hy
  refine ⟨xs' ++ ys', bind_eq_ok.mpr ⟨xs', hx', bind_eq_ok.mpr ⟨ys', hy', rfl⟩⟩, fun k => ?_⟩
  rw [List.filter_append, List.filter_append, hxs, hys]

end Resolution

end Schemata
