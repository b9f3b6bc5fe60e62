import Schemata.Proofs.Resolution.Polymorphic
import Schemata.Proofs.Resolution.RewordedDeclarations
import Schemata.Resolution.Pipeline

/-!
# Runs with a reworded line

How a run goes on when one relation line stands in other words that differ only in the arguments of its leading method. Each step
goes as before, provided that the turn of the line itself does.
-/

namespace Schemata.Resolution

variable {key name old new : String} {d e : Draft} {l l' : DeclaredRelation}

/-- A relation line in two wordings, which differ in the arguments of the leading method. -/
structure Rewording (l l' : DeclaredRelation) (old new : String) : Prop where
  parse : DeclaredRelation.parse l.model l.name (.parse old) = .ok l
  parse' : DeclaredRelation.parse l.model l.name (.parse new) = .ok l'
  same : l' = { l with arguments := l'.arguments }

theorem Rewording.sameKind (h : Rewording l l' old new) : SameKind old new := by
  have hold := (DeclaredRelation.parse_ok h.parse).kind
  have hnew := (DeclaredRelation.parse_ok h.parse').kind
  have hkind : l'.kind = l.kind := by rw [h.same]
  exact ⟨by rw [hold]; rfl, by rw [hold, hnew, hkind]⟩

/-! ## Lines -/

/-- A declared line and what stands for it: itself, or the reworded line. -/
def RewordedLine (key name old new : String) (x x' : DeclaredLine) : Prop :=
  x' = x ∨ x = ⟨key, name, .parse old⟩ ∧ x' = ⟨key, name, .parse new⟩

theorem RewordedLine.kindOf? (h : SameKind old new) {x x' : DeclaredLine} (hx : RewordedLine key name old new x x') :
    x'.model = x.model ∧ x'.name = x.name ∧ DeclaredRelation.kindOf? x'.call = DeclaredRelation.kindOf? x.call := by
  rcases hx with rfl | ⟨rfl, rfl⟩
  · exact ⟨rfl, rfl, rfl⟩
  · exact ⟨rfl, rfl, h.2⟩

theorem lines_reword (key name old new : String) (d : Draft) :
    List.Forall₂ (RewordedLine key name old new) d.lines (d.reword key name old new).lines := by
  have hlines : ∀ k (s : ModelDeclaration), List.Forall₂ (RewordedLine key name old new) (linesOf k s)
      (linesOf k (if k = key then s.reword name old new else s)) := by
    intro k s
    split
    · rename_i hk
      subst hk
      have hentries : List.Forall₂ (fun x x' => x' = (x.1, rewordLine name old new x.1 x.2)) s.columns.entries
          (s.reword name old new).columns.entries :=
        List.forall₂_map_right_iff.mpr (List.forall₂_same.mpr fun _ _ => rfl)
      refine List.rel_filterMap ?_ hentries
      rintro ⟨column, line⟩ _ rfl
      cases line with
      | none =>
        rw [rewordLine_none]
        exact .none
      | some text =>
        unfold rewordLine
        split
        · rename_i h
          obtain ⟨rfl, h⟩ := h
          obtain rfl := Option.some_inj.mp h
          exact .some (.inr ⟨rfl, rfl⟩)
        · exact .some (.inl rfl)
    · exact List.forall₂_same.mpr fun _ _ => .inl rfl
  have hentries : (d.reword key name old new).lines =
      d.declarations.entries.flatMap fun x => linesOf x.1 (if x.1 = key then x.2.reword name old new else x.2) :=
    List.flatMap_map _ _ _
  rw [hentries]
  refine List.rel_flatMap (List.forall₂_same.mpr fun _ _ => rfl) ?_
  rintro x _ rfl
  exact hlines x.1 x.2

/-- A relation line and what stands for it: itself, or the line in its other wording. -/
def Reworded (l l' x x' : DeclaredRelation) : Prop :=
  x' = x ∨ x = l ∧ x' = l'

theorem declaredRelations_reword (h : Rewording l l' old new) {kind : RelationKind} {ls : List DeclaredRelation}
    (hls : d.declaredRelations kind = .ok ls) :
    ∃ ls', (d.reword l.model l.name old new).declaredRelations kind = .ok ls' ∧ List.Forall₂ (Reworded l l') ls ls' := by
  have hfilter : List.Forall₂ (RewordedLine l.model l.name old new)
      (d.lines.filter fun x => DeclaredRelation.kindOf? x.call = some kind)
      ((d.reword l.model l.name old new).lines.filter fun x => DeclaredRelation.kindOf? x.call = some kind) :=
    List.rel_filter (fun x x' hx => by simp [(hx.kindOf? h.sameKind).2.2]) (lines_reword l.model l.name old new d)
  refine mapM_forall₂ (fun x x' y hx hy => ?_) hfilter hls
  rcases hx with rfl | ⟨rfl, rfl⟩
  · exact ⟨y, hy, .inl rfl⟩
  · obtain rfl := Except.ok.inj (h.parse.symm.trans hy)
    exact ⟨l', h.parse', .inr ⟨rfl, rfl⟩⟩

theorem declaredRelationsOf_reword (h : Rewording l l' old new) {first second : RelationKind} {ls : List DeclaredRelation}
    (hls : d.declaredRelationsOf first second = .ok ls) : ∃ ls',
      (d.reword l.model l.name old new).declaredRelationsOf first second = .ok ls' ∧ List.Forall₂ (Reworded l l') ls ls' := by
  obtain ⟨xs, hxs, hls⟩ := bind_eq_ok.mp hls
  obtain ⟨ys, hys, hls⟩ := bind_eq_ok.mp hls
  obtain rfl := pure_eq_ok.mp hls
  obtain ⟨xs', hxs', hx⟩ := declaredRelations_reword h hxs
  obtain ⟨ys', hys', hy⟩ := declaredRelations_reword h hys
  exact ⟨xs' ++ ys', bind_eq_ok.mpr ⟨xs', hxs', bind_eq_ok.mpr ⟨ys', hys', rfl⟩⟩, List.rel_append hx hy⟩

theorem declaration_reword (d : Draft) (model : String) : (d.reword key name old new).declaration model =
    (fun s => if model = key then s.reword name old new else s) <$> d.declaration model := by
  unfold Draft.declaration Draft.reword
  dsimp only
  rw [OrderedMap.get?_modify]
  by_cases h : model = key
  · rw [if_pos h]
    cases d.declarations.get? model with
    | none => rfl
    | some s => exact congrArg Except.ok (if_pos h).symm
  · rw [if_neg h]
    cases d.declarations.get? model with
    | none => rfl
    | some s => exact congrArg Except.ok (if_neg h).symm

/-- The qualifiers of the columns of a place do not depend on the wording. -/
theorem declaredRelation?_reword (h : Rewording l l' old new) {model column : String} {found : Option DeclaredRelation}
    (hfound : d.declaredRelation? model column = .ok found) : ∃ found',
      (d.reword l.model l.name old new).declaredRelation? model column = .ok found' ∧
      found'.elim .empty (·.columnMethods) = found.elim Shorthand.Call.empty (·.columnMethods) := by
  obtain ⟨s, hs, hfound⟩ := bind_eq_ok.mp hfound
  by_cases hline : model = l.model ∧ column = l.name ∧ s.columns.get? column = some (some old)
  · obtain ⟨rfl, rfl, hline⟩ := hline
    have hold := (DeclaredRelation.parse_ok h.parse).kind
    have hnew := (DeclaredRelation.parse_ok h.parse').kind
    have hcall : Shorthand.Call.ofLine (some old) = .parse old := rfl
    have hcall' : Shorthand.Call.ofLine (some new) = .parse new := rfl
    dsimp only at hfound
    rw [hline, Option.join_some, hcall, hold, h.parse] at hfound
    obtain rfl := pure_eq_ok.mp hfound
    refine ⟨some l', bind_eq_ok.mpr ⟨s.reword l.name old new, ?_, ?_⟩, ?_⟩
    · rw [declaration_reword, hs]
      exact congrArg Except.ok (if_pos rfl)
    · have hget : (s.reword l.name old new).columns.get? l.name = some (some new) := by
        unfold ModelDeclaration.reword
        rw [OrderedMap.get?_mapEntries, hline, Option.map_some, rewordLine, if_pos ⟨rfl, rfl⟩]
      dsimp only
      rw [hget, Option.join_some, hcall', hnew, h.parse']
      rfl
    · have hsame : l'.columnMethods = l.columnMethods := by rw [h.same]
      exact hsame
  · refine ⟨found, bind_eq_ok.mpr ⟨if model = l.model then s.reword l.name old new else s, ?_, ?_⟩, rfl⟩
    · rw [declaration_reword, hs]
      rfl
    · have hget : (if model = l.model then s.reword l.name old new else s).columns.get? column = s.columns.get? column := by
        split
        · rename_i hmodel
          unfold ModelDeclaration.reword
          rw [OrderedMap.get?_mapEntries]
          cases hc : s.columns.get? column with
          | none => rfl
          | some line =>
            rw [Option.map_some, rewordLine, if_neg]
            rintro ⟨rfl, rfl⟩
            exact hline ⟨hmodel, rfl, hc⟩
        · rfl
      dsimp only
      rw [hget]
      exact hfound

/-! ## Steps -/

/-- Where a step goes from one draft to another, it goes from the one to the other with a line in other words. -/
def Rewords {α : Type} (key name old new : String) (x : Resolve α) : Prop :=
  ∀ d e a, x d = .ok a e → x (d.reword key name old new) = .ok a (e.reword key name old new)

namespace Rewords

variable {α β : Type}

theorem bind {x : Resolve α} {f : α → Resolve β} (hx : Rewords key name old new x)
    (hf : ∀ a, Rewords key name old new (f a)) : Rewords key name old new (x >>= f) := by
  intro d e b h
  obtain ⟨a, c, ha, h⟩ := Resolve.bind_run_ok.mp h
  exact Resolve.bind_run_ok.mpr ⟨a, _, hx _ _ _ ha, hf a _ _ _ h⟩

theorem inspect {f : Draft → Except SchemaFault α} (hf : ∀ d : Draft, f (d.reword key name old new) = f d) :
    Rewords key name old new (Resolve.inspect f) := by
  intro d e a h
  obtain ⟨ha, rfl⟩ := Resolve.inspect_run_ok.mp h
  exact Resolve.inspect_run_ok.mpr ⟨(hf d).trans ha, rfl⟩

theorem update_of_ok {f : Draft → Except SchemaFault Draft}
    (hf : ∀ d e : Draft, f d = .ok e → f (d.reword key name old new) = .ok (e.reword key name old new)) :
    Rewords key name old new (Resolve.update f) :=
  fun d e _ h => Resolve.update_run_ok.mpr (hf d e (Resolve.update_run_ok.mp h))

theorem update {f : Draft → Except SchemaFault Draft}
    (hf : ∀ d : Draft, f (d.reword key name old new) = Draft.reword key name old new <$> f d) :
    Rewords key name old new (Resolve.update f) :=
  update_of_ok fun d e h => (hf d).trans (map_eq_ok.mpr ⟨e, h, rfl⟩)

theorem modify {f : Draft → Draft} (hf : ∀ d : Draft, f (d.reword key name old new) = (f d).reword key name old new) :
    Rewords key name old new (modify f : Resolve Unit) := by
  intro d e a h
  obtain rfl := Resolve.modify_run_ok.mp h
  exact Resolve.modify_run_ok.mpr (hf d)

theorem pure (a : α) : Rewords key name old new (pure a : Resolve α) := by
  intro d e b h
  obtain ⟨rfl, rfl⟩ := Resolve.pure_run_ok.mp h
  rfl

theorem forM {f : α → Resolve Unit} (xs : List α) (hf : ∀ x, Rewords key name old new (f x)) :
    Rewords key name old new (xs.forM f) := by
  induction xs with
  | nil => exact pure ()
  | cons x rest ih => exact bind (hf x) fun _ => ih

theorem get_bind {f : Draft → Resolve α} (hf : ∀ d : Draft, f (d.reword key name old new) = f d)
    (h : ∀ d, Rewords key name old new (f d)) : Rewords key name old new (get >>= f) := by
  intro d e a hrun
  obtain ⟨c, _, hget, hrun⟩ := Resolve.bind_run_ok.mp hrun
  obtain ⟨rfl, rfl⟩ := Resolve.get_run_ok.mp hget
  exact Resolve.bind_run_ok.mpr ⟨_, _, Resolve.get_run_ok.mpr ⟨rfl, rfl⟩, hf d ▸ h d _ _ _ hrun⟩

end Rewords

/-! ### Relation lines -/

theorem rewords_resolveBelongsTo (x : DeclaredRelation) :
    Rewords key name old new (.update (resolveBelongsTo x)) :=
  .update fun d => by
    simp only [resolveBelongsTo, map_bind, map_pure]
    rfl

theorem rewords_resolveHaving (x : DeclaredRelation) : Rewords key name old new (.update (resolveHaving x)) :=
  .update fun d => by
    simp only [resolveHaving, map_bind, map_pure]
    rfl

theorem rewords_resolveThrough (x : DeclaredRelation) : Rewords key name old new (.update (resolveThrough x)) :=
  .update fun d => by
    unfold resolveThrough
    rw [map_bind]
    refine bind_congr fun pair => ?_
    dsimp only
    split
    · simp only [map_bind, map_pure]
      rfl
    · rfl

theorem rewords_claimPivot (x : DeclaredRelation) (type : ModelType) : Rewords key name old new (claimPivot x type) := by
  refine .bind (.inspect fun _ => rfl) fun pivot => ?_
  cases pivot with
  | none => exact .bind (.pure _) fun _ => .pure _
  | some key => exact .bind (.modify fun _ => rfl) fun _ => .pure _

theorem rewords_resolveMany (x : DeclaredRelation) : Rewords key name old new (resolveMany x) := by
  refine .bind (.inspect fun _ => rfl) fun target => .bind (rewords_claimPivot x _) fun pivot => .update fun d => ?_
  simp only [map_bind, map_pure]
  rfl

theorem rewords_resolveMorphOne (x : DeclaredRelation) : Rewords key name old new (.update (resolveMorphOne x)) :=
  .update fun d => by
    simp only [resolveMorphOne, map_bind, map_pure]
    rfl

theorem rewords_resolveMorphs (x : DeclaredRelation) : Rewords key name old new (resolveMorphs x) := by
  refine .bind (.inspect fun _ => rfl) fun target => .bind (rewords_claimPivot x _) fun pivot => .update fun d => ?_
  cases pivot <;> cases h : x.argument? 1 <;>
    simp only [linkMorphs, h, map_bind, map_pure, pure_bind, bind_map_left] <;> rfl

theorem rewords_resolveMorphTo (x : DeclaredRelation) : Rewords key name old new (modify (resolveMorphTo x) : Resolve Unit) :=
  .modify fun _ => rfl

/-- A loop over lines goes as before if each turn of a line that is not reworded does, and the turn that comes to the reworded
line in the old wording may come to it in the new one. -/
theorem forM_reword {f : DeclaredRelation → Resolve Unit} (step : ∀ x, Rewords key name old new (f x))
    {xs xs' : List DeclaredRelation} (h : List.Forall₂ (Reworded l l') xs xs')
    (turn : ∀ before after c c', xs = before ++ l :: after → before.forM f d = .ok () c → f l c = .ok () c' →
      f l' c = .ok () c')
    (hrun : xs.forM f d = .ok () e) : xs'.forM f (d.reword key name old new) = .ok () (e.reword key name old new) := by
  induction h generalizing d with
  | nil =>
    obtain rfl := Resolve.forM_nil_run_ok.mp hrun
    exact Resolve.forM_nil_run_ok.mpr rfl
  | @cons x x' rest rest' hx _ ih =>
    obtain ⟨c, hfirst, hrest⟩ := Resolve.forM_cons_run_ok.mp hrun
    refine Resolve.forM_cons_run_ok.mpr ⟨c.reword key name old new, ?_, ih (fun before after c₁ c₂ hsplit hbefore => ?_) hrest⟩
    · rcases hx with rfl | ⟨rfl, rfl⟩
      · exact step _ _ _ _ hfirst
      · exact step _ _ _ _ (turn [] rest d c rfl (Resolve.forM_nil_run_ok.mpr rfl) hfirst)
    · exact turn (x :: before) after c₁ c₂ (congrArg (x :: ·) hsplit) (Resolve.forM_cons_run_ok.mpr ⟨c, hfirst, hbefore⟩)

theorem lines_run_reword {read : Draft → Except SchemaFault (List DeclaredRelation)} {f : DeclaredRelation → Resolve Unit}
    (hread : ∀ ls, read d = .ok ls → ∃ ls', read (d.reword key name old new) = .ok ls' ∧ List.Forall₂ (Reworded l l') ls ls')
    (step : ∀ x, Rewords key name old new (f x)) (turn : ∀ c c', Turn read f d l c c' → f l' c = .ok () c')
    (h : (do (← Resolve.inspect read).forM f) d = .ok () e) :
    (do (← Resolve.inspect read).forM f) (d.reword key name old new) = .ok () (e.reword key name old new) := by
  obtain ⟨ls, c, hi, h⟩ := Resolve.bind_run_ok.mp h
  obtain ⟨hls, rfl⟩ := Resolve.inspect_run_ok.mp hi
  obtain ⟨ls', hls', hreworded⟩ := hread ls hls
  refine Resolve.bind_run_ok.mpr ⟨ls', _, Resolve.inspect_run_ok.mpr ⟨hls', rfl⟩, forM_reword step hreworded ?_ h⟩
  rintro before after c c' rfl hbefore hturn
  exact turn c c' ⟨⟨before, after, hls, hbefore⟩, hturn⟩

/-! ### Other passes -/

theorem modelShell_reword (settings : Settings) (before : List Model) (model : String) (s : ModelDeclaration) :
    modelShell settings before model (if model = key then s.reword name old new else s) =
      modelShell settings before model s := by
  split <;> rfl

theorem rewords_modelShells : Rewords key name old new Pass.modelShells.body := by
  refine .update_of_ok fun d e h => ?_
  obtain ⟨shells, hshells, h⟩ := bind_eq_ok.mp h
  obtain rfl := pure_eq_ok.mp h
  refine bind_eq_ok.mpr ⟨shells, ?_, rfl⟩
  have hentries : (d.reword key name old new).declarations.entries =
      d.declarations.entries.map fun x => (x.1, if x.1 = key then x.2.reword name old new else x.2) := rfl
  rw [hentries, List.foldlM_map]
  simp only [modelShell_reword]
  exact hshells

theorem rewords_relationReservations (h : SameKind old new) : Rewords key name old new Pass.relationReservations.body := by
  refine .modify fun d => ?_
  have hfold : ∀ {xs xs' : List DeclaredLine}, List.Forall₂ (RewordedLine key name old new) xs xs' → ∀ c : Draft,
      xs'.foldl (fun d x => d.modifyModel x.model fun m => { m with relations := m.relations.reserve x.name })
        (c.reword key name old new) =
      (xs.foldl (fun d x => d.modifyModel x.model fun m => { m with relations := m.relations.reserve x.name }) c).reword
        key name old new := by
    intro xs xs' hx
    induction hx with
    | nil => exact fun _ => rfl
    | @cons x _ _ _ hx _ ih =>
      intro c
      obtain ⟨hmodel, hname, _⟩ := hx.kindOf? h
      rw [List.foldl_cons, List.foldl_cons, hmodel, hname]
      exact ih (c.modifyModel x.model fun m => { m with relations := m.relations.reserve x.name })
  exact hfold (List.rel_filter (fun x x' hx => by simp [(hx.kindOf? h).2.2]) (lines_reword key name old new d)) d

theorem declareColumns_reword (h : SameKind old new) (k : String) (s : ModelDeclaration) :
    declareColumns k (s.reword name old new) = declareColumns k s := by
  have hcolumn : ∀ column line,
      declareColumn k column (rewordLine name old new column line) = declareColumn k column line := by
    intro column line
    unfold rewordLine
    split
    · rename_i hline
      obtain ⟨kind, hold⟩ := Option.isSome_iff_exists.mp h.1
      have hnew := h.2.trans hold
      rw [hline.2]
      funext d
      unfold declareColumn
      dsimp only
      rw [show Shorthand.Call.ofLine (some new) = .parse new from rfl,
        show Shorthand.Call.ofLine (some old) = .parse old from rfl, hold, hnew]
    · rfl
  have hentries : (s.reword name old new).columns.entries =
      s.columns.entries.map fun x => (x.1, rewordLine name old new x.1 x.2) := rfl
  unfold declareColumns
  rw [hentries, List.forM_eq_forM, List.forM_map]
  simp only [hcolumn]
  rfl

theorem rewords_columns (h : SameKind old new) : Rewords key name old new Pass.columns.body := by
  refine .get_bind (fun d => ?_) fun d => .forM _ fun x => ?_
  · have hentries : (d.reword key name old new).declarations.entries =
        d.declarations.entries.map fun x => (x.1, if x.1 = key then x.2.reword name old new else x.2) := rfl
    rw [hentries, List.forM_eq_forM, List.forM_map]
    refine congrArg (d.declarations.entries.forM ·) (funext fun x => ?_)
    dsimp only
    split
    · exact declareColumns_reword h _ _
    · rfl
  · refine .bind (.forM _ fun line => .update fun d => ?_) fun _ => .bind (.inspect fun _ => rfl) fun _ => .update fun d => ?_
    · unfold declareColumn
      dsimp only
      split
      · split <;> rfl
      · simp only [map_bind, map_pure]
        rfl
    · simp only [deriveKeys, map_bind, map_pure]
      rfl

theorem rewords_pivotModels : Rewords key name old new Pass.pivotModels.body :=
  .bind (.modify fun _ => rfl) fun _ => .inspect fun _ => rfl

theorem rewords_morphColumns (h : Rewording l l' old new) : Rewords l.model l.name old new Pass.morphColumns.body := by
  refine .get_bind (fun _ => rfl) fun d => .forM _ fun m => .forM _ fun x => .update_of_ok fun d e hrun => ?_
  obtain ⟨parents, shape, found, _, hne, hparents, hshape, hfound, rfl, rfl⟩ := resolveMorphColumns_ok_iff.mp hrun
  obtain ⟨found', hfound', hqualifiers⟩ := declaredRelation?_reword h hfound
  exact resolveMorphColumns_ok_iff.mpr
    ⟨parents, shape, found', _, hne, hparents, hshape, hfound', congrArg _ hqualifiers.symm, rfl⟩

theorem checkEager_reword (d : Draft) (model : String) (paths : List String) :
    checkEager (d.reword key name old new) model paths = checkEager d model paths := by
  have hpath : ∀ path segments current,
      followPath (d.reword key name old new) model path current segments = followPath d model path current segments := by
    intro path segments
    induction segments with
    | nil => exact fun _ => rfl
    | cons segment rest ih =>
      intro current
      unfold followPath
      simp only [ih]
      rfl
  unfold checkEager
  simp only [hpath]

theorem rewords_modelAttributes : Rewords key name old new Pass.modelAttributes.body := by
  refine .get_bind (fun _ => rfl) fun d => .forM _ fun k => .update fun d => ?_
  unfold resolveAttributes
  rw [declaration_reword]
  cases d.declaration k with
  | error fault => rfl
  | ok s =>
    simp only [map_bind, map_pure, bind_map_left, checkEager_reword]
    by_cases hk : k = key <;> simp only [hk, if_true, if_false] <;> rfl

theorem rewords_finalizeModels : Rewords key name old new Pass.finalizeModels.body := by
  refine .get_bind (fun _ => rfl) fun d => ?_
  cases d.models.values.forM checkComplete with
  | ok u => exact .pure u
  | error fault => exact fun _ _ _ h => nomatch h

theorem rewords_explicitMigrations : Rewords key name old new Pass.explicitMigrations.body := by
  refine .bind (.inspect fun _ => rfl) fun declared => .forM _ fun x => .update fun d => ?_
  unfold addDeclared
  dsimp only [Draft.reword]
  split
  · rfl
  · simp only [map_bind, map_pure]
    rfl

theorem rewords_modelMigrations : Rewords key name old new Pass.modelMigrations.body := by
  refine .modify fun d => ?_
  have hfold : ∀ (models : List Model) (c : Draft),
      models.foldl (fun d m => addMigration d (modelMigration m)) (c.reword key name old new) =
        (models.foldl (fun d m => addMigration d (modelMigration m)) c).reword key name old new := by
    intro models
    induction models with
    | nil => exact fun _ => rfl
    | cons m rest ih => exact fun c => ih (addMigration c (modelMigration m))
  exact hfold _ d

theorem rewords_pivotMigrations : Rewords key name old new Pass.pivotMigrations.body := by
  refine .bind (.inspect fun _ => rfl) fun tables => .forM _ fun x => .update fun d => ?_
  unfold addPivotTable
  dsimp only [Draft.reword]
  split
  · rfl
  · split <;> rfl

theorem rewords_artifacts : Rewords key name old new Pass.artifacts.body := by
  refine .update fun d => ?_
  have hfactory : ∀ m s, factoryOf m (if m.key = key then s.reword name old new else s) = factoryOf m s := by
    intro m s
    split <;> rfl
  have hfactories : factories (d.reword key name old new) = factories d := by
    unfold factories
    simp only [declaration_reword, bind_map_left, hfactory]
    rfl
  simp only [collectArtifacts, hfactories, map_bind, map_pure]
  rfl

end Schemata.Resolution
