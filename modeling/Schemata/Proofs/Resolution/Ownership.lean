import Schemata.Proofs.Resolution.Along
import Schemata.Resolution.Ownership

/-!
# Passes of relations that rest on a key column
-/

namespace Schemata.Resolution

open Schemata.Shorthand

variable {d e : Draft} {l : DeclaredRelation}

/-! ## Belonging to a model -/

/-- A key column has the name that its line gives it, and the builder that the target has for that name, or the name and the
builder that the key of the target asks for. -/
theorem keyColumn_ok {target : Model} {column : Column} (h : keyColumn l target = .ok column) :
    ∃ name builder, column = (Column.ofCall name (l.columnCall builder.1 builder.2)).forRelation l.name ∧
      (l.argument? 1 = none → target.hasPrimaryKey = true ∧ builder = target.foreignMethod ∧
        name = Convention.foreignKey target.className target.primaryName) ∧
      ∀ given, l.argument? 1 = some given → name = given ∧ builder = builderFor target given := by
  unfold keyColumn at h
  dsimp only at h
  split at h
  · rename_i name hname
    obtain rfl := pure_eq_ok.mp h
    refine ⟨name, builderFor target name, rfl, fun hn => absurd (hname.symm.trans hn) (by simp), fun given hg => ?_⟩
    obtain rfl := Option.some_inj.mp (hname.symm.trans hg)
    exact ⟨rfl, rfl⟩
  · rename_i hname
    split at h
    · rename_i hkey
      obtain rfl := pure_eq_ok.mp h
      exact ⟨_, target.foreignMethod, rfl, fun _ => ⟨hkey, rfl, rfl⟩, fun _ hg => absurd (hname.symm.trans hg) (by simp)⟩
    · exact absurd h throw_ne_ok

theorem fits_keyColumn {target m : Model} {column : Column} (hl : d.Declares l) (hk : l.kind = .belongsTo)
    (hm : m.columns.slot? l.name = some .pending) (h : keyColumn l target = .ok column) :
    Fits (d.relationLines l.model) .belongsTo m l.name column := by
  obtain ⟨name, builder, rfl, _⟩ := keyColumn_ok h
  exact ⟨hk ▸ hl.line, hm, rfl,
    hl.columnMethods.of_subset (Column.methods_ofCall_single name builder.1 builder.2 l.columnMethods)⟩

theorem resolveBelongsTo_ok_iff : resolveBelongsTo l d = .ok e ↔ ∃ key target column,
    d.target l = .ok key ∧ d.models.get? key = some target ∧ keyColumn l target = .ok column ∧
      e = (d.modifyModel l.model (placeKey l.name column)).resolveRelation l
        (.belongsTo ⟨key, column.name, l.argument? 2⟩) := by
  unfold resolveBelongsTo
  simp only [bind_eq_ok, Draft.model_eq_ok, pure_eq_ok, exists_and_left, eq_comm (a := e)]

theorem resolveBelongsTo_edited (hd : d.Sound) (hl : d.Declares l) (hk : l.kind = .belongsTo)
    (hw : ∀ m, d.models.get? l.model = some m → m.columns.slot? l.name = some .pending)
    (h : resolveBelongsTo l d = .ok e) : Edited [.belongsTo] d e := by
  obtain ⟨key, target, column, ht, _, hc, rfl⟩ := resolveBelongsTo_ok_iff.mp h
  have hkey : key ∈ d.models.keys := Draft.mem_keys_of_target hd.keyed ht
  have h₁ : Edited [.belongsTo] d (d.modifyModel l.model (placeKey l.name column)) :=
    .of_modifyModel fun m hm => .single (.placeKey (by simp) (fits_keyColumn hl hk (hw m hm) hc))
  have h₂ : Edited [.belongsTo] _ ((d.modifyModel l.model (placeKey l.name column)).resolveRelation l
      (.belongsTo ⟨key, column.name, l.argument? 2⟩)) :=
    edited_resolveRelation (hl.along h₁) hk.symm (by simp [hk, RelationKind.stage])
      (List.cons_subset.mpr ⟨h₁.keys ▸ hkey, List.nil_subset _⟩) rfl
  exact trans_of (Edited [.belongsTo]) h₁ h₂

theorem resolveBelongsTo_filled (h : resolveBelongsTo l d = .ok e) :
    Filled l.model l.name e ∧ Placed l.model l.name e := by
  obtain ⟨key, target, column, _, _, _, rfl⟩ := resolveBelongsTo_ok_iff.mp h
  refine ⟨filled_resolveRelation _ _ _, fun m hm hn => ?_⟩
  obtain ⟨m₁, hm₁, rfl⟩ := Draft.exists_of_get?_modifyModel hm
  obtain ⟨m₀, _, rfl⟩ := Draft.exists_of_get?_modifyModel hm₁
  exact (pending_placeKey hn).1 rfl

theorem resolveBelongsTo_apart {k n : String} (hne : l.relation ≠ ⟨k, n⟩) (h : resolveBelongsTo l d = .ok e) :
    e.atPlace k n = d.atPlace k n := by
  obtain ⟨key, target, column, _, _, _, rfl⟩ := resolveBelongsTo_ok_iff.mp h
  rw [Draft.atPlace_resolveRelation hne]
  refine Draft.atPlace_modifyModel fun hk m => atPlace_placeKey ?_ column
  rintro rfl
  exact hne (congrArg (RelationName.mk · l.name) hk)

theorem turns_belongsTo (hd : d.Sound) (hw : d.Awaits .belongsTo) (h : Pass.belongsTo.body d = .ok () e) :
    Edited [.belongsTo] d e ∧ ∀ k n, ∀ kind ∈ [RelationKind.belongsTo], (n, kind) ∈ d.relationLines k → ∃ l c c',
      TurnIn [.belongsTo] (·.declaredRelations .belongsTo) (fun line => .update (resolveBelongsTo line)) d e l c c' ∧
        l.model = k ∧ l.name = n ∧ l.kind = kind := by
  refine turns_of_lines Draft.lists_of_declaredRelations
    (fun hne hf => resolveBelongsTo_apart hne (Resolve.update_run_ok.mp hf)) (fun {l c c'} hc hl hk hv hf => ?_) h
  have hkind : l.kind = .belongsTo := List.mem_singleton.mp hk
  exact resolveBelongsTo_edited (hd.edited hc) (hl.along hc) hkind
    (fun m hm => hw.pending (hkind ▸ hl.line) hv hm) (Resolve.update_run_ok.mp hf)

theorem edited_belongsTo (hd : d.Sound) (hw : d.Awaits .belongsTo) (h : Pass.belongsTo.body d = .ok () e) :
    Edited [.belongsTo] d e ∧ ∀ k n, (n, .belongsTo) ∈ d.relationLines k → Filled k n e ∧ Placed k n e := by
  obtain ⟨hde, hall⟩ := turns_belongsTo hd hw h
  refine ⟨hde, fun k n hn => ?_⟩
  obtain ⟨l, c, c', ht, rfl, rfl, _⟩ := hall k n _ (List.mem_singleton_self _) hn
  obtain ⟨hf, hp⟩ := resolveBelongsTo_filled (Resolve.update_run_ok.mp ht.left)
  exact ⟨hf.edited ht.after, hp.edited ht.after⟩

/-! ## Having models -/

theorem havingLink_model {target : Model} {link : HasOneOrMany} (h : havingLink l target = .ok link) :
    link.model = target.key := by
  unfold havingLink at h
  split at h
  · obtain rfl := pure_eq_ok.mp h; rfl
  · split at h
    · obtain rfl := pure_eq_ok.mp h; rfl
    · exact absurd h throw_ne_ok

theorem resolveHaving_ok_iff : resolveHaving l d = .ok e ↔ ∃ key target link, d.target l = .ok key ∧
    d.models.get? key = some target ∧ havingLink l target = .ok link ∧
      e = d.resolveRelation l (if l.kind = .hasOne then .hasOne link else .hasMany link) := by
  unfold resolveHaving
  simp only [bind_eq_ok, Draft.model_eq_ok, pure_eq_ok, exists_and_left, eq_comm (a := e)]

theorem resolveHaving_edited (hd : d.Sound) (hl : d.Declares l) (hk : l.kind ∈ [.hasOne, .hasMany])
    (h : resolveHaving l d = .ok e) : Edited [.hasOneOrMany] d e ∧ Filled l.model l.name e := by
  obtain ⟨key, target, link, ht, hm, hlink, rfl⟩ := resolveHaving_ok_iff.mp h
  have hkey : link.model ∈ d.models.keys := by
    rw [havingLink_model hlink, hd.keyed key target hm]
    exact Draft.mem_keys_of_target hd.keyed ht
  have hs : [link.model] ⊆ d.models.keys := List.cons_subset.mpr ⟨hkey, List.nil_subset _⟩
  have hstage : l.kind.stage ∈ [Stage.hasOneOrMany] := by
    rcases List.mem_pair.mp hk with h | h <;> simp [h, RelationKind.stage]
  exact ⟨edited_resolveRelation_either (.hasOne link) (.hasMany link) hl hk hstage hs hs ⟨rfl, rfl⟩,
    filled_resolveRelation _ _ _⟩

theorem resolveHaving_apart {k n : String} (hne : l.relation ≠ ⟨k, n⟩) (h : resolveHaving l d = .ok e) :
    e.atPlace k n = d.atPlace k n := by
  obtain ⟨_, _, _, _, _, _, rfl⟩ := resolveHaving_ok_iff.mp h
  exact Draft.atPlace_resolveRelation hne

theorem turns_hasOneOrMany (hd : d.Sound) (h : Pass.hasOneOrMany.body d = .ok () e) :
    Edited [.hasOneOrMany] d e ∧ ∀ k n, ∀ kind ∈ [RelationKind.hasOne, .hasMany], (n, kind) ∈ d.relationLines k →
      ∃ l c c', TurnIn [.hasOneOrMany] (·.declaredRelationsOf .hasOne .hasMany) (fun line => .update (resolveHaving line))
        d e l c c' ∧ l.model = k ∧ l.name = n ∧ l.kind = kind :=
  turns_of_lines (Draft.lists_of_declaredRelationsOf (by decide))
    (fun hne hf => resolveHaving_apart hne (Resolve.update_run_ok.mp hf))
    (fun hc hl hk _ hf => (resolveHaving_edited (hd.edited hc) (hl.along hc) hk (Resolve.update_run_ok.mp hf)).1) h

theorem edited_hasOneOrMany (hd : d.Sound) (h : Pass.hasOneOrMany.body d = .ok () e) :
    Edited [.hasOneOrMany] d e ∧
      ∀ k n, ∀ kind ∈ [RelationKind.hasOne, .hasMany], (n, kind) ∈ d.relationLines k → Filled k n e :=
  edited_of_lines (Draft.lists_of_declaredRelationsOf (by decide))
    (fun hd hl hk hf => resolveHaving_edited hd hl hk (Resolve.update_run_ok.mp hf)) (fun h hq => hq.edited h) hd h

/-! ## Having models through others -/

theorem intermediate_ok {target through : String} (h : intermediate d l target = .ok through) :
    through ∈ d.models.keys := by
  obtain ⟨m, _, h⟩ := bind_eq_ok.mp h
  dsimp only at h
  split at h
  · rename_i found hf
    obtain rfl := pure_eq_ok.mp h
    have hb := List.find?_some hf
    cases hg : d.models.get? found with
    | none => rw [hg] at hb; cases hb
    | some n => exact OrderedMap.mem_keys_iff.mpr ⟨n, hg⟩
  · exact absurd h throw_ne_ok

theorem pairByName?_some (hd : d.Sound) {name model through : String} (h : pairByName? d name = some (model, through)) :
    model ∈ d.models.keys ∧ through ∈ d.models.keys := by
  obtain ⟨candidate, _, h⟩ := List.exists_of_findSome?_eq_some h
  obtain ⟨t, ht, h⟩ := Option.bind_eq_some_iff.mp h
  obtain ⟨m, hm, h⟩ := Option.bind_eq_some_iff.mp h
  obtain ⟨rfl, rfl⟩ := Prod.mk.inj (Option.some_inj.mp h)
  exact ⟨Draft.mem_keys_of_findModel? hd.keyed hm, Draft.mem_keys_of_findModel? hd.keyed ht⟩

theorem throughPair_ok (hd : d.Sound) {model through : String} (h : throughPair d l = .ok (model, through)) :
    model ∈ d.models.keys ∧ through ∈ d.models.keys := by
  have guessed : ∀ {pair : String × String}, (do
      let target ← d.target l
      return (target, ← intermediate d l target) : Except SchemaFault (String × String)) = .ok pair →
      pair.1 ∈ d.models.keys ∧ pair.2 ∈ d.models.keys := by
    intro pair h
    obtain ⟨target, ht, h⟩ := bind_eq_ok.mp h
    obtain ⟨i, hi, h⟩ := bind_eq_ok.mp h
    obtain rfl := pure_eq_ok.mp h
    exact ⟨Draft.mem_keys_of_target hd.keyed ht, intermediate_ok hi⟩
  unfold throughPair at h
  dsimp only at h
  split at h
  · obtain ⟨target, ht, h⟩ := bind_eq_ok.mp h
    obtain ⟨t, hr, h⟩ := bind_eq_ok.mp h
    obtain ⟨rfl, rfl⟩ := Prod.mk.inj (pure_eq_ok.mp h)
    exact ⟨Draft.mem_keys_of_target hd.keyed ht, Draft.mem_keys_of_resolveReference hd.keyed hr⟩
  · exact guessed h
  · split at h
    · rename_i hp
      obtain rfl := pure_eq_ok.mp h
      exact pairByName?_some hd hp
    · exact guessed h

/-- The models of a through relation form a chain unless it names its keys. -/
theorem resolveThrough_ok_iff : resolveThrough l d = .ok e ↔ ∃ link : Through,
    throughPair d l = .ok (link.model, link.through) ∧ link.firstKey = l.argument? 2 ∧ link.secondKey = l.argument? 3 ∧
      (l.argument? 2 = none → l.argument? 3 = none →
        checkLink d l link.model link.through = .ok () ∧ checkLink d l link.through l.model = .ok ()) ∧
      e = d.resolveRelation l (if l.kind = .hasOneThrough then .hasOneThrough link else .hasManyThrough link) := by
  have hkeys : ((l.argument? 2).isNone && (l.argument? 3).isNone) = true ↔ l.argument? 2 = none ∧ l.argument? 3 = none := by
    simp
  unfold resolveThrough
  rw [bind_eq_ok]
  constructor
  · rintro ⟨⟨model, through⟩, hp, h⟩
    refine ⟨⟨model, through, l.argument? 2, l.argument? 3⟩, hp, rfl, rfl, ?_⟩
    dsimp only at h ⊢
    split at h
    · obtain ⟨_, hfirst, h⟩ := bind_eq_ok.mp h
      obtain ⟨_, hsecond, h⟩ := bind_eq_ok.mp h
      exact ⟨fun _ _ => ⟨hfirst, hsecond⟩, (pure_eq_ok.mp h).symm⟩
    · rename_i hne
      exact ⟨fun h₂ h₃ => absurd (hkeys.mpr ⟨h₂, h₃⟩) hne, (pure_eq_ok.mp h).symm⟩
  · rintro ⟨⟨model, through, _, _⟩, hp, rfl, rfl, hchain, rfl⟩
    refine ⟨_, hp, ?_⟩
    dsimp only
    split
    · rename_i heq
      obtain ⟨hfirst, hsecond⟩ := hchain (hkeys.mp heq).1 (hkeys.mp heq).2
      exact bind_eq_ok.mpr ⟨(), hfirst, bind_eq_ok.mpr ⟨(), hsecond, rfl⟩⟩
    · rfl

theorem resolveThrough_edited (hd : d.Sound) (hl : d.Declares l) (hk : l.kind ∈ [.hasOneThrough, .hasManyThrough])
    (h : resolveThrough l d = .ok e) : Edited [.hasOneOrManyThrough] d e ∧ Filled l.model l.name e := by
  obtain ⟨link, hp, _, _, _, rfl⟩ := resolveThrough_ok_iff.mp h
  obtain ⟨hm, ht⟩ := throughPair_ok hd hp
  have hs : [link.model, link.through] ⊆ d.models.keys :=
    List.cons_subset.mpr ⟨hm, List.cons_subset.mpr ⟨ht, List.nil_subset _⟩⟩
  have hstage : l.kind.stage ∈ [Stage.hasOneOrManyThrough] := by
    rcases List.mem_pair.mp hk with h | h <;> simp [h, RelationKind.stage]
  exact ⟨edited_resolveRelation_either (.hasOneThrough link) (.hasManyThrough link) hl hk hstage hs hs ⟨rfl, rfl⟩,
    filled_resolveRelation _ _ _⟩

theorem resolveThrough_apart {k n : String} (hne : l.relation ≠ ⟨k, n⟩) (h : resolveThrough l d = .ok e) :
    e.atPlace k n = d.atPlace k n := by
  obtain ⟨_, _, _, _, _, rfl⟩ := resolveThrough_ok_iff.mp h
  exact Draft.atPlace_resolveRelation hne

theorem turns_hasOneOrManyThrough (hd : d.Sound) (h : Pass.hasOneOrManyThrough.body d = .ok () e) :
    Edited [.hasOneOrManyThrough] d e ∧ ∀ k n, ∀ kind ∈ [RelationKind.hasOneThrough, .hasManyThrough],
      (n, kind) ∈ d.relationLines k → ∃ l c c', TurnIn [.hasOneOrManyThrough]
        (·.declaredRelationsOf .hasOneThrough .hasManyThrough) (fun line => .update (resolveThrough line)) d e l c c' ∧
          l.model = k ∧ l.name = n ∧ l.kind = kind :=
  turns_of_lines (Draft.lists_of_declaredRelationsOf (by decide))
    (fun hne hf => resolveThrough_apart hne (Resolve.update_run_ok.mp hf))
    (fun hc hl hk _ hf => (resolveThrough_edited (hd.edited hc) (hl.along hc) hk (Resolve.update_run_ok.mp hf)).1) h

theorem edited_hasOneOrManyThrough (hd : d.Sound) (h : Pass.hasOneOrManyThrough.body d = .ok () e) :
    Edited [.hasOneOrManyThrough] d e ∧
      ∀ k n, ∀ kind ∈ [RelationKind.hasOneThrough, .hasManyThrough], (n, kind) ∈ d.relationLines k → Filled k n e :=
  edited_of_lines (Draft.lists_of_declaredRelationsOf (by decide))
    (fun hd hl hk hf => resolveThrough_edited hd hl hk (Resolve.update_run_ok.mp hf)) (fun h hq => hq.edited h) hd h

/-! ## Faults -/

theorem failsInSchema_belongsTo : Resolve.FailsInSchema Pass.belongsTo.body :=
  .bind (.inspect _) fun _ => .forM fun _ _ => .update _

theorem failsInSchema_hasOneOrMany : Resolve.FailsInSchema Pass.hasOneOrMany.body :=
  .bind (.inspect _) fun _ => .forM fun _ _ => .update _

theorem failsInSchema_hasOneOrManyThrough : Resolve.FailsInSchema Pass.hasOneOrManyThrough.body :=
  .bind (.inspect _) fun _ => .forM fun _ _ => .update _

end Schemata.Resolution
