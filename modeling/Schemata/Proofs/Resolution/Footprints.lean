import Schemata.Proofs.Resolution.BesidePasses
import Schemata.Proofs.Resolution.Parts
import Schemata.Proofs.Resolution.ReorderedTables

/-!
# What passes read

Each pass does the same to drafts that agree in the parts that it reads, and leaves them agreeing in those parts and in all others in
which they agreed before.
-/

namespace Schemata.Resolution

open Convention Resolve

variable {α : Type} {S : String → Part → Prop} {d e : Draft} {l : DeclaredRelation} {k : String} {m n : Model}

/-! ## Loops over lines -/

/-- A step that reads the draft and then changes all models accordingly. -/
theorem simulates_effect {f : Resolve Unit} {read : Draft → Except SchemaFault α} {effect : α → String → Model → Model}
    (run : ∀ {d e}, f d = .ok () e ↔ ∃ r, read d = .ok r ∧ e = d.mapModels (effect r))
    (reads : ∀ {d e}, d.Agrees S e → read e = read d)
    (writes : ∀ {r k m n}, m.Agrees (S k) n → (effect r k m).Agrees (S k) (effect r k n)) : Simulates (Draft.Agrees S) f := by
  intro d b _ e h hrun
  obtain ⟨r, hr, rfl⟩ := run.mp hrun
  exact ⟨_, run.mpr ⟨r, (reads h).trans hr, rfl⟩, h.mapModels writes⟩

theorem simulates_lines {R : Draft → Draft → Prop} {read : Draft → Except SchemaFault (List DeclaredRelation)}
    {f : DeclaredRelation → Resolve Unit} (hread : ∀ {d e}, R d e → read e = read d) (hf : ∀ l, Simulates R (f l)) :
    Simulates R (do (← inspect read).forM f) :=
  .bind (.inspect fun _ _ _ h hr => (hread h).trans hr) fun _ => .forM fun l _ => hf l

/-- A pass over lines does the same to two drafts if each of its turns does, in the drafts to which the pass comes. -/
theorem exists_turns {stages : List Stage} {kinds : List RelationKind} {R : Draft → Draft → Prop}
    {read : Draft → Except SchemaFault (List DeclaredRelation)} {f : DeclaredRelation → Resolve Unit} {b : Draft}
    (hlists : ∀ {ls}, read d = .ok ls → d.Lists kinds ls) (hread : read b = read d)
    (hturns : ∀ k n, ∀ kind ∈ kinds, (n, kind) ∈ d.relationLines k →
      ∃ l c c', TurnIn stages read f d e l c c' ∧ l.model = k ∧ l.name = n ∧ l.kind = kind)
    (step : ∀ {l c c' a}, TurnIn stages read f d e l c c' → l.kind ∈ kinds → R c a → ∃ a', f l a = .ok () a' ∧ R c' a')
    (h : R d b) (hrun : (do (← inspect read).forM f) d = .ok () e) :
    ∃ e', (do (← inspect read).forM f) b = .ok () e' ∧ R e e' := by
  obtain ⟨ls, c, hi, hrun⟩ := bind_run_ok.mp hrun
  obtain ⟨hls, rfl⟩ := inspect_run_ok.mp hi
  have hlist := hlists hls
  -- The lines that are left, after those that the pass has come to.
  have hrest : ∀ {after} before {c a}, ls = before ++ after → before.forM f d = .ok () c → after.forM f c = .ok () e → R c a →
      ∃ e', after.forM f a = .ok () e' ∧ R e e' := by
    intro after
    induction after with
    | nil =>
      intro before c a _ _ hrun h
      obtain rfl := forM_nil_run_ok.mp hrun
      exact ⟨a, forM_nil_run_ok.mpr rfl, h⟩
    | cons l rest ih =>
      intro before c a hsplit hbefore hrun h
      obtain ⟨c', hl, hleft⟩ := forM_cons_run_ok.mp hrun
      obtain ⟨hdeclares, hkind⟩ := hlist.declares l (hsplit ▸ List.mem_append_right _ List.mem_cons_self)
      obtain ⟨l', c₁, c₁', ht, hm, hn, _⟩ := hturns l.model l.name l.kind hkind hdeclares.line
      obtain rfl := hdeclares.unique ht.declares hm hn
      obtain ⟨before', after', hread', hbefore'⟩ := ht.reached
      have hnodup := hlist.nodup
      have heq := Except.ok.inj (hls.symm.trans hread')
      obtain rfl : before = before' := by
        rw [hsplit, List.map_append, List.map_cons, List.nodup_append, List.nodup_cons] at hnodup
        have hx : l' ∉ before := fun hx => hnodup.2.2 _ (List.mem_map_of_mem hx) _ List.mem_cons_self rfl
        have hy : l' ∉ rest := fun hy => hnodup.2.1.1 (List.mem_map_of_mem hy)
        exact ((List.append_cons_inj_of_notMem hx hy).mp (hsplit.symm.trans heq)).1
      obtain rfl : c = c₁ := by
        rw [hbefore] at hbefore'
        injection hbefore'
      obtain rfl : c' = c₁' := by
        have hturn := ht.left
        rw [hl] at hturn
        injection hturn
      obtain ⟨a', ha', h'⟩ := step ht hkind h
      have hdone : (before ++ [l']).forM f d = .ok () c' :=
        forM_append_run_ok.mpr ⟨c, hbefore, forM_cons_run_ok.mpr ⟨c', hl, forM_nil_run_ok.mpr rfl⟩⟩
      obtain ⟨e', he', hR⟩ := ih (before ++ [l']) (by rw [hsplit, List.append_assoc]; rfl) hdone hleft h'
      exact ⟨e', forM_cons_run_ok.mpr ⟨a', ha', he'⟩, hR⟩
  obtain ⟨e', he', hR⟩ := hrest [] rfl (forM_nil_run_ok.mpr rfl) hrun h
  exact ⟨e', bind_run_ok.mpr ⟨ls, b, inspect_run_ok.mpr ⟨hread.trans hls, rfl⟩, he'⟩, hR⟩

namespace Draft.Agrees

variable (h : d.Agrees S e)
include h

theorem target (l : DeclaredRelation) : e.target l = d.target l :=
  Draft.target_congr h.findModel? l

theorem pivotModel? (l : DeclaredRelation) : Resolution.pivotModel? l e = Resolution.pivotModel? l d :=
  pivotModel?_congr h.findModel? l

end Draft.Agrees

theorem completes_simulates {R : Draft → Draft → Prop} {passes : List Pass} (hpasses : ∀ pass ∈ passes, Simulates R pass.body)
    {b : Draft} (h : R d b) (hrun : Completes passes d e) : ∃ c, Completes passes b c ∧ R e c := by
  induction passes generalizing d b with
  | nil =>
    obtain rfl : d = e := hrun
    exact ⟨b, rfl, h⟩
  | cons pass rest ih =>
    obtain ⟨d₁, hd₁, hrun⟩ := hrun
    obtain ⟨b₁, hb₁, h⟩ := hpasses pass List.mem_cons_self h hd₁
    obtain ⟨c, hc, h⟩ := ih (fun p hp => hpasses p (List.mem_cons_of_mem pass hp)) h hrun
    exact ⟨c, ⟨b₁, hb₁, hc⟩, h⟩

/-! ## Places and declared columns -/

theorem simulates_relationReservations : Simulates (Draft.Agrees S) Pass.relationReservations.body := by
  refine .modify fun d b h => ?_
  have hfold : ∀ (ls : List DeclaredLine) {d b : Draft}, d.Agrees S b → (ls.foldl reserveLine d).Agrees S (ls.foldl reserveLine b) := by
    intro ls
    induction ls with
    | nil => exact fun h => h
    | cons l rest ih => exact fun h => ih (h.modifyModel fun h => agrees_reserve h l.name)
  have hreserve : ∀ c, reserveRelations c = c.relational.foldl reserveLine c := fun _ => rfl
  rw [hreserve, hreserve, h.lines]
  exact hfold _ h

theorem Draft.Agrees.setModel (h : d.Agrees S e) {key : String} (hmn : m.Agrees (S key) n) :
    (d.setModel key m).Agrees S (e.setModel key n) :=
  h.mapBoth fun _ _ h => by
    split
    · rename_i hk
      subst hk
      exact hmn
    · exact h

theorem agrees_withLines {S : Part → Prop} (h : m.Agrees S n) (lines : List (String × Option String)) :
    (withLines m lines).Agrees S (withLines n lines) := by
  have hline : ∀ {m n : Model}, m.Agrees S n → ∀ name line, (withLine m name line).Agrees S (withLine n name line) := by
    intro m n h name line
    unfold withLine
    split
    · exact agrees_columns h (·.reserve name)
    · exact agrees_columns h fun columns => columns.resolve name _
    · exact h
  induction lines generalizing m n with
  | nil => exact h
  | cons x rest ih => exact ih (hline h x.1 x.2)

theorem agrees_derived {S : Part → Prop} (h : m.Agrees S n) (hc : n.columns = m.columns) (s : ModelDeclaration)
    (primary : Option PrimaryKey) : (derived s primary m).Agrees S (derived s primary n) := by
  refine ⟨h.bare, h.names, fun {p} hp => ?_⟩
  have hsame := h.same hp
  cases p with
  | keys => exact ⟨rfl, by unfold derived timestamps; rw [hc], by unfold derived softDelete; rw [hc]⟩
  | keyName => exact rfl
  | _ => exact hsame

theorem simulates_declareColumns {key : String} (hc : S key .columns) (s : ModelDeclaration) :
    Simulates (Draft.Agrees S) (declareColumns key s) := by
  intro d b _ e h hrun
  obtain ⟨m, hm⟩ := exists_model_of_declareColumns hrun
  obtain ⟨primary, hderives, rfl⟩ := (declareColumns_iff hm).mp hrun
  obtain ⟨n, hn, hmn⟩ := h.exists_model hm
  have hlines := agrees_withLines hmn s.columns.entries
  have hcolumns : (withLines n s.columns.entries).columns = (withLines m s.columns.entries).columns := hlines.same hc
  exact ⟨_, (declareColumns_iff hn).mpr ⟨primary, hderives.congr hcolumns hlines.key, rfl⟩,
    h.setModel (agrees_derived hlines hcolumns s primary)⟩

theorem simulates_columns (hc : ∀ k, S k .columns) (hs : ∀ k, S k .declaration) : Simulates (Draft.Agrees S) Pass.columns.body := by
  intro d b _ e h hrun
  rw [columns_run] at hrun
  -- No column tells whether the key of its model was added.
  have hentries : ∀ c : Draft, c.declarations.entries.forM (fun x => declareColumns x.1 x.2) =
      (c.declarations.mapEntries fun _ => unadded).entries.forM fun x => declareColumns x.1 x.2 := by
    intro c
    unfold OrderedMap.mapEntries
    simp only [List.forM_eq_forM, List.forM_map]
    rfl
  have hsame : (b.declarations.mapEntries fun _ => unadded) = d.declarations.mapEntries fun _ => unadded := by
    refine OrderedMap.eq_of_get? ?_ fun k x y hx hy => ?_
    · rw [OrderedMap.keys_mapEntries, OrderedMap.keys_mapEntries, h.declared]
    · rw [OrderedMap.get?_mapEntries] at hx hy
      exact Option.some_inj.mp (hy.symm.trans ((h.declarations (hs k)).trans hx))
  have hturns : Simulates (Draft.Agrees S) (d.declarations.entries.forM fun x => declareColumns x.1 x.2) :=
    .forM fun x _ => simulates_declareColumns (hc x.1) x.2
  obtain ⟨c, hc, hagrees⟩ := hturns h hrun
  rw [hentries d, ← hsame, ← hentries b] at hc
  exact ⟨c, hc, hagrees⟩

/-! ## Key columns -/

theorem keyColumn_agrees {S : Part → Prop} (h : m.Agrees S n) (hn : S .keyName) (hk : S .keys) (hc : S .columns)
    (l : DeclaredRelation) : keyColumn l n = keyColumn l m := by
  have hname : n.primaryName = m.primaryName := h.same hn
  have hcolumns : n.columns = m.columns := h.same hc
  unfold keyColumn builderFor Model.hasPrimaryKey
  simp only [hname, hcolumns, h.foreignMethod hk hc, (h.same hk).1, h.className, h.key]

theorem simulates_resolveBelongsTo (hn : ∀ k, S k .keyName) (hk : ∀ k, S k .keys) (hc : ∀ k, S k .columns) (l : DeclaredRelation) :
    Simulates (Draft.Agrees S) (.update (resolveBelongsTo l)) := by
  refine .update fun d b e h hrun => ?_
  obtain ⟨w, ⟨key, target, column, hkey, htarget, hcolumn, rfl⟩, rfl⟩ := resolveBelongsTo_iff_putsKey.mp hrun
  obtain ⟨target', htarget', hsame⟩ := h.exists_model htarget
  exact ⟨_, resolveBelongsTo_iff_putsKey.mpr ⟨_, ⟨key, target', column, (h.target l).trans hkey, htarget',
    (keyColumn_agrees hsame (hn key) (hk key) (hc key) l).trans hcolumn, rfl⟩, rfl⟩, h.mapModels fun h => agrees_owned h l key column⟩

theorem simulates_belongsTo (hn : ∀ k, S k .keyName) (hk : ∀ k, S k .keys) (hc : ∀ k, S k .columns) :
    Simulates (Draft.Agrees S) Pass.belongsTo.body :=
  simulates_lines (fun h => h.declaredRelations _) (simulates_resolveBelongsTo hn hk hc)

/-! ## Relations -/

theorem readMany_agrees (hn : ∀ k, S k .keyName) (h : d.Agrees S e) : readMany l e = readMany l d := by
  have htable : ∀ key, Model.table <$> e.model key = Model.table <$> d.model key := h.model_map fun h => h.table
  have hlink : ∀ target target' pivot, target'.key = target.key → target'.className = target.className →
      target'.primaryName = target.primaryName → manyLink e l target' pivot = manyLink d l target pivot := by
    intro target target' pivot hkey hclass hname
    unfold manyLink
    simp only [htable, hkey, hclass, hname]
    refine h.model_bind (fun {k m n} hmn => ?_) _
    have hname : n.primaryName = m.primaryName := hmn.same (hn k)
    simp only [hname, hmn.className]
  have hlinks : ∀ target pivot, linkMany l target pivot e = linkMany l target pivot d := by
    intro target pivot
    unfold linkMany
    have hself : ∀ o, manyLink e l o pivot = manyLink d l o pivot := fun o => hlink o o pivot rfl rfl rfl
    simp only [hself]
    refine h.model_bind (fun {k m n} hmn => ?_) _
    rw [← hself]
    exact hlink m n pivot hmn.key hmn.className (hmn.same (hn k))
  unfold readMany
  simp only [h.target, h.pivotModel?, hlinks]

theorem agrees_turned {S : Part → Prop} (h : m.Agrees S n) (link : Link) (pivot : Option String) (type : ModelType) :
    (turned l link pivot type k m).Agrees S (turned l link pivot type k n) :=
  agrees_fillPlace (agrees_claimType h pivot type) l link

theorem simulates_belongsToMany (hn : ∀ k, S k .keyName) : Simulates (Draft.Agrees S) Pass.belongsToMany.body :=
  simulates_lines (fun h => h.declaredRelations _) fun _ =>
    simulates_effect outward_resolveMany.run (readMany_agrees hn) fun h => agrees_turned h _ _ _

theorem readHaving_agrees (hb : ∀ k, S k (.relations .belongsTo)) (h : d.Agrees S e) : readHaving l e = readHaving l d := by
  unfold readHaving
  rw [h.target]
  refine congrArg _ (funext fun target => h.model_bind (fun {k m n} hmn => ?_) target)
  unfold havingLink
  rw [hmn.belongsTo? (hb k), hmn.key]

theorem simulates_hasOneOrMany (hb : ∀ k, S k (.relations .belongsTo)) : Simulates (Draft.Agrees S) Pass.hasOneOrMany.body :=
  simulates_lines (fun h => h.declaredRelationsOf _ _) fun l =>
    simulates_effect outward_resolveHaving.run (readHaving_agrees hb) fun h => agrees_fillPlace h l _

theorem readThrough_agrees (hb : ∀ k, S k (.relations .belongsTo)) (h : d.Agrees S e) : readThrough l e = readThrough l d := by
  have hany : ∀ c, ((e.models.get? c).any fun m => (m.belongsTo? l.model).isSome) =
      (d.models.get? c).any fun m => (m.belongsTo? l.model).isSome := by
    intro c
    have hid := congrArg (Option.any fun b => b)
      (h.map_eq (g := fun m => (m.belongsTo? l.model).isSome) (fun {k _ _} hmn => by rw [hmn.belongsTo? (hb k)]) c)
    rwa [Option.any_map, Option.any_map] at hid
  have hbetween : ∀ target, intermediate e l target = intermediate d l target := by
    intro target
    unfold intermediate
    simp only [hany]
    refine h.model_bind (fun {k _ _} hmn => ?_) target
    rw [hmn.belongsToRelations (hb k)]
  have hlink : ∀ source target, checkLink e l source target = checkLink d l source target := by
    intro source target
    unfold checkLink
    refine h.model_bind (fun {k _ _} hmn => ?_) source
    rw [hmn.belongsTo? (hb k)]
  unfold readThrough throughPair pairByName? Draft.resolveReference
  simp only [h.target, h.findModel?, hbetween, hlink]

theorem simulates_hasOneOrManyThrough (hb : ∀ k, S k (.relations .belongsTo)) :
    Simulates (Draft.Agrees S) Pass.hasOneOrManyThrough.body :=
  simulates_lines (fun h => h.declaredRelationsOf _ _) fun l =>
    simulates_effect outward_resolveThrough.run (readThrough_agrees hb) fun h => agrees_fillPlace h l _

theorem simulates_morphTo : Simulates (Draft.Agrees S) Pass.morphTo.body :=
  simulates_lines (fun h => h.declaredRelations _) fun l => .modify fun _ _ h => h.mapModels fun h => agrees_fillPlace h l _

theorem boundMorphTo_agrees {S : Part → Prop} (hp : S (.relations .morphTo)) (h : m.Agrees S n) :
    boundMorphTo l n = boundMorphTo l m := by
  have hnamed : ∀ name, ((n.relation? name).bind Relation.morphTo?).isSome = ((m.relation? name).bind Relation.morphTo?).isSome := by
    intro name
    have hpoints : ∀ o : Model, ((o.relation? name).bind Relation.morphTo?).isSome = (o.shown .morphTo name).isSome := by
      intro o
      unfold Model.relation? Model.shown
      cases o.relations.get? name with
      | none => rfl
      | some r =>
        obtain ⟨name, methods, link⟩ := r
        cases link <;> rfl
    rw [hpoints, hpoints, h.same hp name]
  have hnames : n.morphToRelations.map (·.1.name) = m.morphToRelations.map (·.1.name) := by
    have hbare := congrArg (List.map fun x : Relation × MorphTo => x.1.name) (h.morphToRelations hp)
    rw [List.map_map, List.map_map] at hbare
    have hname : (fun x : Relation × MorphTo => x.1.name) ∘ barePointer = fun x => x.1.name :=
      funext fun x => Relation.name_mapMorphTo _ x.1
    rwa [hname] at hbare
  unfold boundMorphTo
  cases l.argument? 1 with
  | some name =>
    dsimp only
    rw [hnamed, h.key]
  | none =>
    dsimp only
    rw [h.key]
    rcases hm : m.morphToRelations with _ | ⟨x, _ | ⟨y, rest⟩⟩ <;> rcases hn : n.morphToRelations with _ | ⟨x', _ | ⟨y', rest'⟩⟩ <;>
      simp_all

theorem readMorphOne_agrees (hp : ∀ k, S k (.relations .morphTo)) (h : d.Agrees S e) : readMorphOne l e = readMorphOne l d := by
  unfold readMorphOne
  rw [h.target]
  refine congrArg _ (funext fun target => h.model_bind (fun {k _ _} hmn => ?_) target)
  rw [boundMorphTo_agrees (hp k) hmn]

theorem simulates_morphOneOrMany (hp : ∀ k, S k (.relations .morphTo)) : Simulates (Draft.Agrees S) Pass.morphOneOrMany.body :=
  simulates_lines (fun h => h.declaredRelationsOf _ _) fun l =>
    simulates_effect outward_resolveMorphOne.run (readMorphOne_agrees hp) fun {_ k _ _} h =>
      agrees_fillPlace (agrees_joinParent h (hp k) _ _) l _

theorem readMorphs_agrees (h : d.Agrees S e) : readMorphs l e = readMorphs l d := by
  have htable : ∀ key, Model.table <$> e.model key = Model.table <$> d.model key := h.model_map fun h => h.table
  have hname : ∀ key, (morphName ·.className) <$> e.model key = (morphName ·.className) <$> d.model key :=
    h.model_map fun h => congrArg morphName h.className
  have hlink : ∀ target pivot, readLinkMorphs l target pivot e = readLinkMorphs l target pivot d := by
    intro target pivot
    unfold readLinkMorphs
    simp only [htable, hname]
  unfold readMorphs
  simp only [h.target, h.pivotModel?, hlink]

theorem simulates_morphToMany (hp : ∀ k, S k (.relations .morphTo)) : Simulates (Draft.Agrees S) Pass.morphToMany.body :=
  simulates_lines (fun h => h.declaredRelationsOf _ _) fun l =>
    simulates_effect outward_resolveMorphs.run readMorphs_agrees fun {_ k _ _} h =>
      agrees_fillPlace (agrees_joinPivot (agrees_claimType h _ _) (hp k) l _) l _

/-! ## Pivot models -/

/-- What the check of pivot models reads. -/
structure ReadsPivots (S : Part → Prop) : Prop where
  belongsTo : S (.relations .belongsTo)
  morphTo : S (.relations .morphTo)
  linked {kind} : kind ∈ [RelationKind.belongsToMany, .morphToMany, .morphedByMany] → S (.relations kind)

theorem checkPivot_agrees (hS : ∀ k, ReadsPivots (S k)) (h : d.Agrees S e) (owner : String) (r : Relation) :
    checkPivot e owner r = checkPivot d owner r := by
  unfold checkPivot
  cases r.link.pivot? with
  | none => rfl
  | some key =>
    refine h.model_bind (fun {k m n} hmn => ?_) key
    simp only [hmn.isEmpty_morphToRelations (hS k).morphTo, hmn.belongsTo? (hS k).belongsTo]

/-- A relation of a kind in the scope stands in both models, apart from its parents. -/
theorem exists_relation_agrees {S : Part → Prop} (h : m.Agrees S n) {r : Relation} (hS : S (.relations r.kind))
    (hr : r ∈ n.relations.values) : ∃ r' ∈ m.relations.values, r'.withoutParents = r.withoutParents := by
  obtain ⟨name, hname⟩ := Slots.mem_values_iff.mp hr
  have hshown : m.shown r.kind name = some r.withoutParents := by
    rw [← h.same hS name]
    simp [Model.shown, hname, Option.filter]
  obtain ⟨r', hr', heq⟩ := Option.map_eq_some_iff.mp hshown
  exact ⟨r', Slots.mem_values_iff.mpr ⟨name, (Option.filter_eq_some_iff.mp hr').1⟩, heq⟩

theorem checkPivots_agrees (hS : ∀ k, ReadsPivots (S k)) (h : d.Agrees S e) (hd : checkPivots d = .ok ()) : checkPivots e = .ok () := by
  refine forM_eq_ok.mpr fun n hn => forM_eq_ok.mpr fun r hr => ?_
  obtain ⟨k, hn⟩ := OrderedMap.mem_values_iff.mp hn
  obtain ⟨m, hm, hmn⟩ := h.symm.exists_model hn
  cases hp : r.link.pivot? with
  | none =>
    unfold checkPivot
    rw [hp]
    rfl
  | some key =>
    have hkind : r.kind ∈ [RelationKind.belongsToMany, .morphToMany, .morphedByMany] := by
      obtain ⟨name, methods, link⟩ := r
      cases link <;> first | cases hp | simp [Relation.kind, Link.kind]
    obtain ⟨r', hr', hrr'⟩ := exists_relation_agrees hmn.symm ((hS k).linked hkind) hr
    have hok := forM_eq_ok.mp (forM_eq_ok.mp hd m (OrderedMap.mem_values_iff.mpr ⟨k, hm⟩)) r' hr'
    rw [checkPivot_agrees hS h, ← checkPivot_withoutParents, ← hrr', checkPivot_withoutParents, ← hmn.key]
    exact hok

/-- The same models are pivot models with an added key. -/
def Draft.SameGivers (d e : Draft) : Prop :=
  ∀ ⦃k m n⦄, d.models.get? k = some m → e.models.get? k = some n → (GivesUpKey n ↔ GivesUpKey m)

theorem Draft.Agrees.sameGivers (h : d.Agrees S e) (hp : ∀ k, S k .pivot) (ha : ∀ k, S k .autoId) : d.SameGivers e := by
  intro k m n hm hn
  have hmn := h.models hm hn
  have hpivot : n.isPivot = m.isPivot := hmn.same (hp k)
  have hauto : n.autoId = m.autoId := hmn.same (ha k)
  unfold GivesUpKey
  rw [hpivot, hauto]

theorem pivotModels_agrees (hS : ∀ k, ReadsPivots (S k)) (h : d.Agrees S e) (hg : d.SameGivers e) {d' : Draft}
    (hrun : Pass.pivotModels.body d = .ok () d') : ∃ e', Pass.pivotModels.body e = .ok () e' ∧ d'.Agrees S e' := by
  obtain ⟨rfl, hchecked⟩ := pivotModels_ok hrun
  have hdropped : (d.mapModels fun _ m => dropAddedKey m).Agrees S (e.mapModels fun _ m => dropAddedKey m) :=
    h.mapBoth fun hm hn hmn => agrees_dropAddedKey hmn (hg hm hn)
  exact ⟨_, bind_run_ok.mpr ⟨(), _, modify_run_ok.mpr rfl, inspect_run_ok.mpr ⟨checkPivots_agrees hS hdropped hchecked, rfl⟩⟩,
    hdropped⟩

theorem simulates_pivotModels (hS : ∀ k, ReadsPivots (S k)) (hp : ∀ k, S k .pivot) (ha : ∀ k, S k .autoId) :
    Simulates (Draft.Agrees S) Pass.pivotModels.body :=
  fun _ _ _ _ h hrun => pivotModels_agrees hS h (h.sameGivers hp ha) hrun

/-! ## The columns of pointers -/

/-- Usable keys are alike. -/
def Draft.SameShapes (d e : Draft) : Prop :=
  ∀ ⦃k m n⦄, d.models.get? k = some m → e.models.get? k = some n → (KeyShape.of m).isUsable = true → KeyShape.of n = KeyShape.of m

theorem putsPair_agrees (h : d.Agrees S e) (hs : d.SameShapes e) {x : RelationName × MorphTo} {w : String → Model → Model}
    (hx : PutsPair x d w) : PutsPair x e w := by
  obtain ⟨shape, found, column, hagree, hf, hcolumn, rfl⟩ := hx
  refine ⟨shape, found, column, ⟨hagree.nonempty, hagree.usable, fun p hp => ?_⟩, (h.line _ _).trans hf, hcolumn, rfl⟩
  obtain ⟨m, hm, hshape⟩ := hagree.shape p hp
  obtain ⟨n, hn, _⟩ := h.exists_model hm
  exact ⟨n, hn, (hs hm hn (hshape.symm ▸ hagree.usable)).trans hshape⟩

/-- A pointer up to the order of its parents. -/
def pointerSign (x : RelationName × MorphTo) : RelationName × String × Bool × (String → Prop) :=
  (x.1, x.2.columnName, x.2.nullable, fun p => p ∈ x.2.models)

theorem SamePointer.of_pointerSign {x y : RelationName × MorphTo} (h : pointerSign y = pointerSign x) : SamePointer x y := by
  obtain ⟨hplace, hrest⟩ := Prod.mk.inj h
  obtain ⟨hcolumn, hrest⟩ := Prod.mk.inj hrest
  obtain ⟨hnullable, hparents⟩ := Prod.mk.inj hrest
  exact ⟨hplace, hcolumn, hnullable, fun p => iff_of_eq (congrFun hparents p)⟩

theorem pointersOf_agrees {S : Part → Prop} (h : m.Agrees S n) (hp : S (.relations .morphTo)) (hs : S .parentSet) (k : String) :
    (pointersOf k n).map pointerSign = (pointersOf k m).map pointerSign := by
  unfold pointersOf Model.morphToRelations
  rw [List.map_map, List.map_map, List.map_filterMap, List.map_filterMap, Model.Agrees.values_filterMap,
    Model.Agrees.values_filterMap, h.names]
  refine List.filterMap_congr fun name _ => ?_
  have hshown := h.same hp name
  have hparents := h.same hs name
  unfold Model.shown at hshown
  unfold Model.parentsAt at hparents
  -- Either both have a pointer under the name, alike apart from parents, or neither has one.
  cases hm : m.relations.get? name with
  | none =>
    cases hn : n.relations.get? name with
    | none => rfl
    | some r' =>
      obtain ⟨name', methods', link'⟩ := r'
      cases link' <;> simp_all [Option.filter, Relation.kind, Link.kind, Relation.morphTo?]
  | some r =>
    cases hn : n.relations.get? name with
    | none =>
      obtain ⟨name', methods', link'⟩ := r
      cases link' <;> simp_all [Option.filter, Relation.kind, Link.kind, Relation.morphTo?]
    | some r' =>
      obtain ⟨rname, methods, link⟩ := r
      obtain ⟨rname', methods', link'⟩ := r'
      rw [hm, hn] at hshown hparents
      cases link <;> cases link' <;>
        simp_all [Option.filter, Relation.kind, Link.kind, Relation.morphTo?, Link.parents, Relation.withoutParents,
          Relation.mapMorphTo, pointerSign]

theorem Draft.Agrees.pointers (h : d.Agrees S e) (hp : ∀ k, S k (.relations .morphTo)) (hs : ∀ k, S k .parentSet) :
    List.Forall₂ SamePointer d.pointers e.pointers := by
  have hsign : ∀ c : Draft, c.pointers.map pointerSign = (c.models.values.map fun m => (pointersOf m.key m).map pointerSign).flatten := by
    intro c
    unfold Draft.pointers
    rw [List.map_flatMap, List.flatMap_def]
    rfl
  have hsame : e.pointers.map pointerSign = d.pointers.map pointerSign := by
    rw [hsign, hsign, h.values_eq fun {k _ _} hmn => by rw [hmn.key, pointersOf_agrees hmn (hp k) (hs k)]]
  have hpairs : List.Forall₂ (fun x y => pointerSign x = pointerSign y) e.pointers d.pointers :=
    List.forall₂_map_left_iff.mp (List.forall₂_map_right_iff.mp (List.forall₂_eq_eq_eq ▸ hsame))
  exact hpairs.flip.imp fun _ _ heq => .of_pointerSign heq

theorem simulates_morphColumns (hp : ∀ k, S k (.relations .morphTo)) (hs : ∀ k, S k .parentSet) (hk : ∀ k, S k .keys) :
    Simulates (Draft.Agrees S) Pass.morphColumns.body := by
  intro d b _ e h hrun
  rw [morphColumns_run] at hrun ⊢
  have hturns : Simulates (Draft.Agrees S) (d.pointers.forM fun x => .update (resolveMorphColumns x.1.model x.1.name x.2)) := by
    refine .forM fun x _ => fun d b _ e h hrun => ?_
    obtain ⟨w, hw, rfl⟩ := plans_resolveMorphColumns.run.mp hrun
    refine ⟨_, plans_resolveMorphColumns.run.mpr ⟨w, putsPair_agrees h (fun k m n hm hn _ => (h.models hm hn).keyShape (hk k)) hw, rfl⟩,
      h.mapModels fun {k m n} hmn => ?_⟩
    obtain ⟨_, _, column, _, _, _, rfl⟩ := hw
    dsimp only
    split
    · exact agrees_columns hmn fun columns => columns.resolve x.1.name column
    · exact hmn
  obtain ⟨c, hc, hagrees⟩ := hturns h hrun
  exact ⟨c, forM_of_forall₂ (fun hxy hx => update_run_ok.mpr (hxy.resolveMorphColumns (update_run_ok.mp hx))) (h.pointers hp hs) hc,
    hagrees⟩

/-! ## Attributes -/

/-- Relations of all kinds that are alike apart from parents are the same apart from parents. -/
theorem mapValues_relations_agrees {S : Part → Prop} (h : m.Agrees S n) (hS : AllRelations S) :
    n.withoutParents.relations = m.withoutParents.relations :=
  Slots.eq_of_get? ((Slots.keys_mapValues ..).trans (h.names.trans (Slots.keys_mapValues ..).symm)) fun name => by
    unfold Model.withoutParents
    rw [Slots.get?_mapValues, Slots.get?_mapValues]
    exact h.relation? hS name

theorem checkAttributes_agrees {S : Part → Prop} (h : m.Agrees S n) (hc : S .columns) (hk : S .keys) (hr : AllRelations S)
    (s : ModelDeclaration) : checkAttributes n s = checkAttributes m s := by
  have hcolumns : n.columns = m.columns := h.same hc
  unfold checkAttributes Model.hasPhysicalColumn
  simp only [hcolumns, h.key, (h.same hk).2.1, h.isSome_relation? hr]

theorem checkEager_agrees (hr : ∀ k, AllRelations (S k)) (h : d.Agrees S e) (key : String) (paths : List String) :
    checkEager e key paths = checkEager d key paths :=
  checkEager_congr (h.map_eq fun {k _ _} hmn => mapValues_relations_agrees hmn (hr k)) key paths

theorem simulates_resolveAttributes {key : String} (hc : S key .columns) (hk : S key .keys) (hr : ∀ k, AllRelations (S k))
    (hs : S key .declaration) : Simulates (Draft.Agrees S) (.update (resolveAttributes key)) := by
  intro d b _ e h hrun
  obtain ⟨_, ⟨s, m, hdecl, hm, hcheck, heager, rfl⟩, rfl⟩ := plans_resolveAttributes.run.mp hrun
  obtain ⟨n, hn, hmn⟩ := h.exists_model hm
  have hdeclared := h.declarations hs
  rw [hdecl] at hdeclared
  obtain ⟨s', hs', heq⟩ := Option.map_eq_some_iff.mp hdeclared
  -- Nothing that the attributes follow from tells whether the key was added.
  have hcheck' : checkAttributes n s' = .ok () := by
    rw [checkAttributes_agrees hmn hc hk (hr key)]
    exact (congrArg (checkAttributes m) heq).trans hcheck
  have heager' : checkEager b key s'.eager = .ok () := by
    rw [checkEager_agrees hr h]
    exact (congrArg (fun s : ModelDeclaration => checkEager d key s.eager) heq).trans heager
  have hwith : withAttributes s' = withAttributes s :=
    show withAttributes (unadded s') = withAttributes (unadded s) from congrArg withAttributes heq
  refine ⟨_, plans_resolveAttributes.run.mpr ⟨_, ⟨s', n, hs', hn, hcheck', heager', rfl⟩, rfl⟩, ?_⟩
  rw [hwith]
  refine h.mapModels fun {k o o'} hoo' => ?_
  split
  · rename_i hk
    subst hk
    exact agrees_withAttributes hoo' hc s
  · exact hoo'

theorem simulates_modelAttributes (hc : ∀ k, S k .columns) (hk : ∀ k, S k .keys) (hr : ∀ k, AllRelations (S k))
    (hs : ∀ k, S k .declaration) : Simulates (Draft.Agrees S) Pass.modelAttributes.body := by
  intro d b _ e h hrun
  rw [modelAttributes_run] at hrun
  have hturns : Simulates (Draft.Agrees S) (d.models.keys.forM fun key => .update (resolveAttributes key)) :=
    .forM fun key _ => simulates_resolveAttributes (hc key) (hk key) hr (hs key)
  obtain ⟨c, hc, hagrees⟩ := hturns h hrun
  rw [← h.keys] at hc
  exact ⟨c, hc, hagrees⟩

/-! ## Completion -/

theorem checkComplete_agrees {S : Part → Prop} (h : m.Agrees S n) (hc : S .columns) (hr : AllRelations S) :
    checkComplete n = checkComplete m := by
  have hcolumns : n.columns = m.columns := h.same hc
  unfold checkComplete
  rw [hcolumns, h.pendingKeys hr, h.key]

theorem simulates_finalizeModels (hc : ∀ k, S k .columns) (hr : ∀ k, AllRelations (S k)) :
    Simulates (Draft.Agrees S) Pass.finalizeModels.body := by
  intro d b _ e h hrun
  obtain ⟨rfl, hchecked⟩ := finalizeModels_ok hrun
  have hall : b.models.values.forM checkComplete = .ok () := by
    refine forM_eq_ok.mpr fun n hn => ?_
    obtain ⟨k, hn⟩ := OrderedMap.mem_values_iff.mp hn
    obtain ⟨m, hm, hmn⟩ := h.symm.exists_model hn
    rw [checkComplete_agrees hmn.symm (hc k) (hr k)]
    exact hchecked m (OrderedMap.mem_values_iff.mpr ⟨k, hm⟩)
  refine ⟨b, ?_, h⟩
  rw [finalizeModels_run, hall]

/-! ## Tables -/

theorem Draft.Agrees.addMigration (h : d.Agrees S e) (m : Migration) : (addMigration d m).Agrees S (addMigration e m) :=
  { h with migrations := congrArg (OrderedMap.insert · m.table m) h.migrations }

theorem simulates_explicitMigrations : Simulates (Draft.Agrees S) Pass.explicitMigrations.body := by
  refine .bind (.inspect fun d b r h hr => ?_) fun ds => .forM fun x _ => .update fun d b e h hrun => ?_
  · unfold SchemaDeclaration.migrationDeclarations at hr ⊢
    rw [h.tables]
    exact hr
  · obtain ⟨hmodels, m, hm, rfl⟩ := addDeclared_ok hrun
    refine ⟨_, ?_, h.addMigration m⟩
    have hnone : (b.models.values.find? fun m => m.migration && m.table == x.1) = none := by
      refine List.find?_eq_none.mpr fun n hn hp => ?_
      obtain ⟨k, hn⟩ := OrderedMap.mem_values_iff.mp hn
      obtain ⟨o, ho, hon⟩ := h.symm.exists_model hn
      obtain ⟨hmigration, htable⟩ := Bool.and_eq_true_iff.mp hp
      exact hmodels o (OrderedMap.mem_values_iff.mpr ⟨k, ho⟩) (hon.migration.trans hmigration) (hon.table.trans (beq_iff_eq.mp htable))
    unfold addDeclared
    rw [hnone]
    exact bind_eq_ok.mpr ⟨m, hm, rfl⟩

theorem modelMigration_agrees {S : Part → Prop} (h : m.Agrees S n) (hc : S .columns) (ha : S .attributes) :
    modelMigration n = modelMigration m := by
  have hcolumns : n.columns = m.columns := h.same hc
  have hindexes : n.indexes = m.indexes := congrArg (·.indexes) (h.same ha : n.attributes = m.attributes)
  unfold modelMigration
  rw [h.table, hcolumns, hindexes, h.key]

theorem simulates_modelMigrations (hc : ∀ k, S k .columns) (ha : ∀ k, S k .attributes) :
    Simulates (Draft.Agrees S) Pass.modelMigrations.body := by
  refine .modify fun d b h => ?_
  have hmade : (b.models.values.filter (·.migration)).map modelMigration = (d.models.values.filter (·.migration)).map modelMigration := by
    have hpairs : b.models.values.map (fun m => (m.migration, modelMigration m)) =
        d.models.values.map fun m => (m.migration, modelMigration m) :=
      h.values_eq fun {k _ _} hmn => Prod.ext hmn.migration (modelMigration_agrees hmn (hc k) (ha k))
    have hfilter : ∀ ms : List Model, (ms.filter (·.migration)).map modelMigration =
        ((ms.map fun m => (m.migration, modelMigration m)).filter Prod.fst).map Prod.snd := by
      intro ms
      rw [List.filter_map, List.map_map]
      rfl
    rw [hfilter, hfilter, hpairs]
  have hfold : ∀ (ms : List Migration) {d b : Draft}, d.Agrees S b → (ms.foldl addMigration d).Agrees S (ms.foldl addMigration b) := by
    intro ms
    induction ms with
    | nil => exact fun h => h
    | cons m rest ih => exact fun h => ih (h.addMigration m)
  have hfolded : ∀ c : Draft, (c.models.values.filter (·.migration)).foldl (fun d m => addMigration d (modelMigration m)) c =
      ((c.models.values.filter (·.migration)).map modelMigration).foldl addMigration c := fun c => List.foldl_map.symm
  rw [hfolded, hfolded, hmade]
  exact hfold _ h

/-- Tables of pivots are made alike of two models, unless the first has no key that a pointer can hold and the second has one. -/
structure Model.SameTables (m n : Model) : Prop where
  key : n.key = m.key
  className : n.className = m.className
  keyName : n.primaryName = m.primaryName
  foreignMethod : n.foreignMethod = m.foreignMethod
  shape : (KeyShape.of m).isUsable = true → KeyShape.of n = KeyShape.of m

/-- Tables of pivots are made alike of the models of two drafts. -/
def Draft.SameTables (d e : Draft) : Prop :=
  ∀ ⦃k m n⦄, d.models.get? k = some m → e.models.get? k = some n → Model.SameTables m n

/-- What the tables of pivots are made of. -/
structure ReadsTables (S : Part → Prop) : Prop where
  keyName : S .keyName
  keys : S .keys
  columns : S .columns
  relations : AllRelations S

theorem Draft.Agrees.sameTables (h : d.Agrees S e) (hS : ∀ k, ReadsTables (S k)) : d.SameTables e := fun k _ _ hm hn =>
  have hmn := h.models hm hn
  ⟨hmn.key, hmn.className, hmn.same (hS k).keyName, hmn.foreignMethod (hS k).keys (hS k).columns, fun _ => hmn.keyShape (hS k).keys⟩

theorem Model.SameTables.pivotColumn (h : Model.SameTables m n) (name : String) :
    Resolution.pivotColumn name n = Resolution.pivotColumn name m := by
  unfold Resolution.pivotColumn
  rw [h.foreignMethod]

theorem morphsTable_same {l : MorphToMany} {relation : RelationName} {parent parent' related related' : Model} {made : Migration}
    (hp : Model.SameTables parent parent') (hr : Model.SameTables related related')
    (h : morphsTable l relation parent related = .ok made) : morphsTable l relation parent' related' = .ok made := by
  have hshape : parent'.hasUuidKey = parent.hasUuidKey ∧ parent'.hasAutoIncrementKey = parent.hasAutoIncrementKey := by
    have husable : (KeyShape.of parent).isUsable = true := by
      unfold morphsTable at h
      unfold KeyShape.isUsable KeyShape.of
      by_cases huuid : parent.hasUuidKey = true
      · simp [huuid]
      · by_cases hauto : parent.hasAutoIncrementKey = true
        · simp [hauto]
        · rw [if_neg huuid, if_neg hauto] at h
          exact absurd h throw_ne_ok
    exact ⟨congrArg KeyShape.uuid (hp.shape husable), congrArg KeyShape.incrementing (hp.shape husable)⟩
  unfold morphsTable at h ⊢
  rw [hshape.1, hshape.2, hr.className, hr.keyName, hp.key]
  simp only [hr.pivotColumn]
  exact h

theorem LinkTable.same (h : d.Agrees S e) (ht : d.SameTables e) {owner owner' : Model} (ho : Model.SameTables owner owner')
    {relation : RelationName} {link : Link} {made : Migration} (hmade : LinkTable d owner relation link made) :
    LinkTable e owner' relation link made := by
  have htarget : ∀ {key m}, d.models.get? key = some m → ∃ n, e.models.get? key = some n ∧ Model.SameTables m n := by
    intro key m hm
    obtain ⟨n, hn, _⟩ := h.exists_model hm
    exact ⟨n, hn, ht hm hn⟩
  cases hmade with
  | @many l m hm =>
    obtain ⟨n, hn, hmn⟩ := htarget hm
    have hsame : manyTable l owner m = manyTable l owner' n := by
      unfold manyTable
      rw [ho.pivotColumn, hmn.pivotColumn]
    exact hsame ▸ .many hn
  | morphs hm made =>
    obtain ⟨n, hn, hmn⟩ := htarget hm
    exact .morphs hn (morphsTable_same ho hmn made)
  | morphed hm made =>
    obtain ⟨n, hn, hmn⟩ := htarget hm
    exact .morphed hn (morphsTable_same hmn ho made)

theorem pivotTable?_same (h : d.Agrees S e) (ht : d.SameTables e) {owner owner' : Model} (ho : Model.SameTables owner owner')
    {r : Relation} {made : Option Migration} (hmade : pivotTable? d owner r = .ok made) : pivotTable? e owner' r = .ok made := by
  cases made with
  | none => exact pivotTable?_none_iff.mpr (pivotTable?_none_iff.mp hmade)
  | some m =>
    obtain ⟨hp, htable⟩ := pivotTable?_some_iff.mp hmade
    exact pivotTable?_some_iff.mpr ⟨hp, ho.key ▸ htable.same h ht ho⟩

theorem pivotRow_same (h : d.Agrees S e) (ht : d.SameTables e) (hmn : Model.SameTables m n) {r r' : Relation}
    (hr : r'.withoutParents = r.withoutParents) {made : List (RelationName × Migration)} (hmade : pivotRow d m r = .ok made) :
    pivotRow e n r' = .ok made := by
  have hname : r'.name = r.name := by
    have hbare : r'.withoutParents.name = r.withoutParents.name := by rw [hr]
    rwa [Relation.withoutParents, Relation.withoutParents, Relation.name_mapMorphTo, Relation.name_mapMorphTo] at hbare
  obtain ⟨table, htable, hmade⟩ := bind_eq_ok.mp hmade
  refine bind_eq_ok.mpr ⟨table, ?_, by rw [hname, hmn.key]; exact hmade⟩
  rw [← pivotTable?_withoutParents, hr, pivotTable?_withoutParents]
  exact pivotTable?_same h ht hmn htable

theorem pivotTables_same (hr : ∀ k, AllRelations (S k)) (h : d.Agrees S e) (ht : d.SameTables e) {ts : List (RelationName × Migration)}
    (hts : pivotTables d = .ok ts) : pivotTables e = .ok ts := by
  have hmodels : List.Forall₂ (fun m n => (∃ k, m.Agrees (S k) n) ∧ Model.SameTables m n) d.models.values e.models.values :=
    OrderedMap.forall₂_values h.keys fun k m n hm hn => ⟨⟨k, h.models hm hn⟩, ht hm hn⟩
  obtain ⟨tables, htables, rfl⟩ := pivotTables_iff.mp hts
  refine pivotTables_iff.mpr ⟨tables, mapM_eq_of_forall₂ ?_ hmodels htables, rfl⟩
  rintro m n made ⟨⟨k, hmn⟩, hsame⟩ hmade
  have hequal := List.forall₂_eq_eq_eq ▸ hmn.values_withoutParents (hr k)
  have hpairs : List.Forall₂ (fun r r' => r'.withoutParents = r.withoutParents) m.relations.values n.relations.values :=
    (List.forall₂_map_left_iff.mp (List.forall₂_map_right_iff.mp hequal)).flip
  refine mapM_eq_of_forall₂ ?_ hpairs hmade
  exact fun _ _ _ hrr' hrow => pivotRow_same h ht hsame hrr' hrow

theorem simulates_pivotMigrations (hS : ∀ k, ReadsTables (S k)) : Simulates (Draft.Agrees S) Pass.pivotMigrations.body := by
  refine .bind (.inspect fun d b r h hr => pivotTables_same (fun k => (hS k).relations) h (h.sameTables hS) hr) fun ts =>
    .forM fun x _ => .update fun d b e h hrun => ?_
  rcases addPivotTable_iff.mp hrun with ⟨hnone, rfl⟩ | ⟨other, hother, hs, rfl⟩
  · exact ⟨_, addPivotTable_iff.mpr (.inl ⟨h.migrations ▸ hnone, rfl⟩), h.addMigration x.2⟩
  · exact ⟨b, addPivotTable_iff.mpr (.inr ⟨other, h.migrations ▸ hother, hs, rfl⟩), h⟩

/-! ## Further files -/

/-- A model apart from whether its key was added. -/
def unaddedModel (m : Model) : Model :=
  { m with autoId := false }

namespace Draft.Agrees

variable {β : Type} (h : d.Agrees S e) (hS : ∀ k p, p ≠ .autoId → S k p)
include h hS

theorem map_unadded : e.models.values.map unaddedModel = d.models.values.map unaddedModel :=
  h.values_eq fun {k _ _} hmn => by
    unfold unaddedModel
    rw [hmn.eq_of_all (hS k)]

/-- What does not tell whether the key of a model was added is collected alike. -/
theorem flatMap_values {g : Model → List β} (hg : ∀ m, g (unaddedModel m) = g m) :
    e.models.values.flatMap g = d.models.values.flatMap g := by
  have hplain : ∀ ms : List Model, ms.flatMap g = (ms.map unaddedModel).flatMap g := by
    intro ms
    rw [List.flatMap_map]
    simp only [hg]
  rw [hplain, h.map_unadded hS, ← hplain]

theorem filter_values {p : Model → Bool} {g : Model → β} (hp : ∀ m, p (unaddedModel m) = p m) (hg : ∀ m, g (unaddedModel m) = g m) :
    (e.models.values.filter p).map g = (d.models.values.filter p).map g := by
  have hplain : ∀ ms : List Model, (ms.filter p).map g = ((ms.map unaddedModel).filter p).map g := by
    intro ms
    rw [List.filter_map, List.map_map, (funext hp : p ∘ unaddedModel = p), (funext hg : g ∘ unaddedModel = g)]
  rw [hplain, h.map_unadded hS, ← hplain]

theorem declaration_unadded (k : String) : unadded <$> e.declaration k = unadded <$> d.declaration k := by
  have hk := h.declarations (hS k .declaration (by simp))
  unfold Draft.declaration
  revert hk
  cases d.declarations.get? k with
  | none => cases e.declarations.get? k <;> simp
  | some s =>
    cases e.declarations.get? k with
    | none => simp
    | some s' => exact fun hk => congrArg Except.ok (Option.some_inj.mp hk)

theorem factories_eq : factories e = factories d := by
  have hfactories : ∀ c : Draft, factories c = OrderedMap.ofList <$>
      ((c.models.values.map unaddedModel).filter fun m => m.factory && !m.isPivot).mapM fun m =>
        return (m.key, factoryOf m (← unadded <$> c.declaration m.key)) := by
    intro c
    rw [List.filter_map, List.mapM_map, map_eq_pure_bind]
    refine congrArg (· >>= fun made => pure (OrderedMap.ofList made)) (congrArg (List.mapM · _) (funext fun m => ?_))
    dsimp only [Function.comp]
    rw [bind_map_left]
    rfl
  rw [hfactories, hfactories, h.map_unadded hS]
  simp only [h.declaration_unadded hS]

end Draft.Agrees

/-- Nothing that is collected tells whether the key of a model was added. -/
theorem artifacts_agrees (hS : ∀ k p, p ≠ .autoId → S k p) (h : d.Agrees S e) {d' : Draft}
    (hrun : Pass.artifacts.body d = .ok () d') :
    ∃ e', Pass.artifacts.body e = .ok () e' ∧ d'.Agrees S e' ∧ e'.artifacts = d'.artifacts := by
  obtain ⟨made, hmade, hrun⟩ := bind_eq_ok.mp (update_run_ok.mp hrun)
  obtain rfl := pure_eq_ok.mp hrun
  refine ⟨_, update_run_ok.mpr (bind_eq_ok.mpr ⟨made, (h.factories_eq hS).trans hmade, rfl⟩), { h with }, ?_⟩
  dsimp only
  rw [h.filter_values hS (p := (·.observer)) (fun _ => rfl) fun _ => rfl,
    h.filter_values hS (p := (·.seeder)) (fun _ => rfl) fun _ => rfl,
    h.filter_values hS (p := (!·.globalScopes.isEmpty)) (fun _ => rfl) fun _ => rfl,
    h.flatMap_values hS (g := (·.quickTraits)) fun _ => rfl, h.flatMap_values hS (g := (·.quickCasts)) fun _ => rfl]

end Schemata.Resolution
