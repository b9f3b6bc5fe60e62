import Schemata.Proofs.Resolution.Links
import Schemata.Proofs.Resolution.Rewording
import Schemata.Proofs.Shorthand.Writing

/-!
# Guessed targets

A relation line that leaves its models to be guessed goes the same way as the line that spells out what was found: the models
stand under their own keys, and nothing else of the line is different.
-/

namespace Schemata

open Schemata.Shorthand

/-- The models that the first arguments of a relation line stand for. -/
def Link.targets : Link → List String
  | .hasOneThrough l | .hasManyThrough l => [l.model, l.through]
  | link => link.model?.toList

theorem Link.targets_subset (link : Link) : link.targets ⊆ link.references := by
  cases link <;> simp [targets, model?, references]

theorem Link.kind_either {kind : RelationKind} (one many : Link) (h : kind ∈ [one.kind, many.kind]) :
    (if kind = one.kind then one else many).kind = kind := by
  split
  · rename_i h
    exact h.symm
  · rename_i hne
    exact ((List.mem_pair.mp h).resolve_left hne).symm

/-- The first arguments of a line are given keys, and the line is as the other one otherwise. -/
structure Spells (l l' : DeclaredRelation) (keys : List String) : Prop where
  same : ∃ arguments, l' = { l with arguments }
  argument : ∀ i, l'.argument? i = keys[i]?.or (l.argument? i)

theorem Spells.rewording {l l' : DeclaredRelation} {keys : List String} {old new : String} (h : Spells l l' keys)
    (hold : DeclaredRelation.parse l.model l.name (.parse old) = .ok l)
    (hnew : DeclaredRelation.parse l.model l.name (.parse new) = .ok l') : Resolution.Rewording l l' old new := by
  obtain ⟨⟨arguments, rfl⟩, _⟩ := h
  exact ⟨hold, hnew, rfl⟩

/-- Writing out the first arguments of a relation line spells them. -/
theorem exists_spelled {keys : List String} (hne : keys ≠ []) (hkeys : ∀ key ∈ keys, IsPlainKey key) {text : String}
    {l : DeclaredRelation} (h : DeclaredRelation.parse l.model l.name (.parse text) = .ok l) :
    ∃ l', DeclaredRelation.parse l.model l.name (.parse (writeOut keys text)) = .ok l' ∧ Spells l l' keys := by
  obtain ⟨first, first', rest, hcall, hcall', hname, hname', hvalue⟩ :=
    parse_writeOut hne hkeys (DeclaredRelation.parse_ok h).kind
  obtain ⟨harguments, h'⟩ := DeclaredRelation.parse_arguments hcall hcall' (hname'.trans hname.symm) h
  refine ⟨_, h', ⟨first'.arguments, rfl⟩, fun i => ?_⟩
  have hold : l.argument? i = first.value? i := by
    unfold DeclaredRelation.argument? Method.value?
    rw [harguments]
  exact hold ▸ hvalue i

namespace Resolution

variable {d e : Draft} {l l' : DeclaredRelation} {key : String}

/-! ## Steps -/

theorem target_spelled {rest : List String} (h : Spells l l' (key :: rest)) (hkey : key ∈ d.models.keys) :
    d.target l' = .ok key := by
  unfold Draft.target Draft.resolveReference
  rw [h.argument 0]
  dsimp only [List.getElem?_cons_zero, Option.some_or]
  rw [Draft.findModel?_of_mem hkey]
  rfl

theorem keyColumn_spelled (h : Spells l l' [key]) (target : Model) : keyColumn l' target = keyColumn l target := by
  obtain ⟨⟨arguments, rfl⟩, hargument⟩ := h
  unfold keyColumn
  rw [hargument 1]
  rfl

/-- A turn makes a link for its line, and goes the same way for a line that spells out the models of the link. -/
def Makes (f : DeclaredRelation → Resolve Unit) (l : DeclaredRelation) (d e : Draft) : Prop :=
  ∃ (c : Draft) (link : Link), e = c.resolveRelation l link ∧ link.kind = l.kind ∧
    ∀ l', Spells l l' link.targets → f l' d = .ok () e

theorem makes_resolveBelongsTo (hd : d.Keyed) (hk : l.kind = .belongsTo) (h : resolveBelongsTo l d = .ok e) :
    Makes (fun line => .update (resolveBelongsTo line)) l d e := by
  obtain ⟨key, target, column, ht, hm, hc, rfl⟩ := resolveBelongsTo_ok_iff.mp h
  refine ⟨_, _, rfl, hk.symm, fun l' hs => Resolve.update_run_ok.mpr ?_⟩
  have ht' := target_spelled hs (Draft.mem_keys_of_target hd ht)
  refine resolveBelongsTo_ok_iff.mpr ⟨key, target, column, ht', hm, (keyColumn_spelled hs target).trans hc, ?_⟩
  obtain ⟨⟨arguments, rfl⟩, hargument⟩ := hs
  rw [hargument 2]
  rfl

theorem havingLink_spelled (h : Spells l l' [key]) (target : Model) : havingLink l' target = havingLink l target := by
  obtain ⟨⟨arguments, rfl⟩, hargument⟩ := h
  unfold havingLink
  rw [hargument 1, hargument 2]
  rfl

theorem makes_resolveHaving (hd : d.Keyed) (hk : l.kind ∈ [.hasOne, .hasMany]) (h : resolveHaving l d = .ok e) :
    Makes (fun line => .update (resolveHaving line)) l d e := by
  obtain ⟨key, target, link, ht, hm, hlink, rfl⟩ := resolveHaving_ok_iff.mp h
  have hkey : link.model = key := (havingLink_model hlink).trans (hd key target hm)
  refine ⟨_, _, rfl, Link.kind_either (.hasOne link) (.hasMany link) hk, fun l' hs => Resolve.update_run_ok.mpr ?_⟩
  have htargets : (if l.kind = .hasOne then Link.hasOne link else .hasMany link).targets = [key] := by
    split <;> exact congrArg (fun key => [key]) hkey
  rw [htargets] at hs
  have ht' := target_spelled hs (Draft.mem_keys_of_target hd ht)
  refine resolveHaving_ok_iff.mpr ⟨key, target, link, ht', hm, (havingLink_spelled hs target).trans hlink, ?_⟩
  obtain ⟨⟨arguments, rfl⟩, _⟩ := hs
  rfl

theorem throughPair_spelled {through : String} (hkey : key ∈ d.models.keys) (ht : through ∈ d.models.keys)
    (h : Spells l l' [key, through]) : throughPair d l' = .ok (key, through) := by
  unfold throughPair Draft.resolveReference
  rw [target_spelled h hkey, h.argument 0, h.argument 1]
  dsimp only [List.getElem?_cons_zero, List.getElem?_cons_succ, Option.some_or]
  rw [Draft.findModel?_of_mem ht]
  rfl

theorem makes_resolveThrough (hd : d.Sound) (hk : l.kind ∈ [.hasOneThrough, .hasManyThrough])
    (h : resolveThrough l d = .ok e) : Makes (fun line => .update (resolveThrough line)) l d e := by
  obtain ⟨link, hp, hfirst, hsecond, hchain, rfl⟩ := resolveThrough_ok_iff.mp h
  obtain ⟨hm, ht⟩ := throughPair_ok hd hp
  refine ⟨_, _, rfl, Link.kind_either (.hasOneThrough link) (.hasManyThrough link) hk, fun l' hs => ?_⟩
  have htargets : (if l.kind = .hasOneThrough then Link.hasOneThrough link else .hasManyThrough link).targets =
      [link.model, link.through] := by split <;> rfl
  rw [htargets] at hs
  have hpair' := throughPair_spelled hm ht hs
  have h₂ : l'.argument? 2 = l.argument? 2 := hs.argument 2
  have h₃ : l'.argument? 3 = l.argument? 3 := hs.argument 3
  obtain ⟨⟨arguments, rfl⟩, _⟩ := hs
  refine Resolve.update_run_ok.mpr (resolveThrough_ok_iff.mpr ⟨link, hpair', hfirst.trans h₂.symm, hsecond.trans h₃.symm, ?_, rfl⟩)
  rw [h₂, h₃]
  exact hchain

theorem manyLink_spelled (h : Spells l l' [key]) (d : Draft) (target : Model) (pivot : Option String) :
    manyLink d l' target pivot = manyLink d l target pivot := by
  obtain ⟨⟨arguments, rfl⟩, hargument⟩ := h
  unfold manyLink
  rw [hargument 1, hargument 2, hargument 3]
  rfl

theorem makes_resolveMany (hd : d.Sound) (hk : l.kind = .belongsToMany) (h : resolveMany l d = .ok () e) :
    Makes resolveMany l d e := by
  obtain ⟨key, pivot, c, target, link, ht, hclaim, hm, hlink, rfl⟩ := resolveMany_ok_iff.mp h
  have hc := hd.edited (claimPivot_edited [.belongsToMany] hd rfl (by simp) hclaim).1
  obtain ⟨_, _, hmodel, _⟩ := manyLink_ok hlink
  refine ⟨_, _, rfl, hk.symm, fun l' hs => ?_⟩
  obtain rfl : link.model = key := hmodel.trans (hc.keyed key target hm)
  have ht' := target_spelled hs (Draft.mem_keys_of_target hd.keyed ht)
  have hlink' := (manyLink_spelled hs c target pivot).trans hlink
  obtain ⟨⟨arguments, rfl⟩, _⟩ := hs
  exact resolveMany_ok_iff.mpr ⟨_, pivot, c, target, link, ht', hclaim, hm, hlink', rfl⟩

theorem boundMorphTo_spelled (h : Spells l l' [key]) (target : Model) : boundMorphTo l' target = boundMorphTo l target := by
  obtain ⟨⟨arguments, rfl⟩, hargument⟩ := h
  unfold boundMorphTo
  rw [hargument 1]
  rfl

theorem makes_resolveMorphOne (hd : d.Keyed) (hk : l.kind ∈ [.morphOne, .morphMany]) (h : resolveMorphOne l d = .ok e) :
    Makes (fun line => .update (resolveMorphOne line)) l d e := by
  obtain ⟨link, target, ht, hm, hbound, rfl⟩ := resolveMorphOne_ok_iff.mp h
  refine ⟨_, _, rfl, kind_morphLink hk link, fun l' hs => Resolve.update_run_ok.mpr ?_⟩
  have htargets : (morphLink l link).targets = [link.model] := by
    unfold morphLink
    split <;> rfl
  rw [htargets] at hs
  have ht' := target_spelled hs (Draft.mem_keys_of_target hd ht)
  refine resolveMorphOne_ok_iff.mpr ⟨link, target, ht', hm, (boundMorphTo_spelled hs target).trans hbound, ?_⟩
  obtain ⟨⟨arguments, rfl⟩, _⟩ := hs
  rfl

theorem linkMorphs_spelled (h : Spells l l' [key]) (target : String) (pivot : Option String) (d : Draft) :
    linkMorphs l' target pivot d = linkMorphs l target pivot d := by
  obtain ⟨⟨arguments, rfl⟩, hargument⟩ := h
  unfold linkMorphs
  rw [hargument 1]
  rfl

theorem makes_resolveMorphs (hd : d.Sound) (hk : l.kind ∈ [.morphToMany, .morphedByMany]) (h : resolveMorphs l d = .ok () e) :
    Makes resolveMorphs l d e := by
  obtain ⟨target, pivot, c, ht, hclaim, hlinked⟩ := resolveMorphs_ok_iff.mp h
  obtain ⟨link, rfl, rfl, rfl, _⟩ := linkMorphs_ok hlinked
  refine ⟨_, _, rfl, kind_morphsLink hk link, fun l' hs => ?_⟩
  have htargets : (morphsLink l link).targets = [link.model] := by
    unfold morphsLink
    split <;> rfl
  rw [htargets] at hs
  have ht' := target_spelled hs (Draft.mem_keys_of_target hd.keyed ht)
  have hlinked' := (linkMorphs_spelled hs link.model link.pivot c).trans hlinked
  obtain ⟨⟨arguments, rfl⟩, _⟩ := hs
  exact resolveMorphs_ok_iff.mpr ⟨link.model, link.pivot, c, ht', hclaim, hlinked'⟩

/-! ## Turns -/

/-- A pass over lines comes to a line once. -/
theorem Turn.unique {kinds : List RelationKind} {read : Draft → Except SchemaFault (List DeclaredRelation)}
    {f : DeclaredRelation → Resolve Unit} {c c' c₂ c₂' : Draft} (hread : ∀ {ls}, read d = .ok ls → d.Lists kinds ls)
    (h : Turn read f d l c c') (h' : Turn read f d l c₂ c₂') : c₂ = c ∧ c₂' = c' := by
  obtain ⟨⟨before, after, hls, hbefore⟩, hleft⟩ := h
  obtain ⟨⟨before', after', hls', hbefore'⟩, hleft'⟩ := h'
  have hn := List.nodup_middle.mp (hread hls).nodup.of_map
  have hmem : l ∉ before ∧ l ∉ after := by simpa using (List.nodup_cons.mp hn).1
  obtain ⟨rfl, _⟩ := (List.append_cons_inj_of_notMem hmem.1 hmem.2).mp (Except.ok.inj (hls.symm.trans hls'))
  rw [hbefore] at hbefore'
  obtain rfl := (EStateM.Result.ok.inj hbefore').2
  rw [hleft] at hleft'
  exact ⟨rfl, (EStateM.Result.ok.inj hleft').2.symm⟩

/-- The turn of a line goes the same way for a line that spells out the models of the link that the relation has in the end. -/
theorem turn_spelled {kinds : List RelationKind} {stages stages' : List Stage}
    {read : Draft → Except SchemaFault (List DeclaredRelation)} {f : DeclaredRelation → Resolve Unit} {z : Draft} {m : Model}
    {r : Relation} (hread : ∀ {ls}, read d = .ok ls → d.Lists kinds ls)
    (turns : ∀ k n, ∀ kind ∈ kinds, (n, kind) ∈ d.relationLines k →
      ∃ l c c', TurnIn stages read f d e l c c' ∧ l.model = k ∧ l.name = n ∧ l.kind = kind)
    (makes : ∀ {l c c'}, Edited stages d c → l.kind ∈ kinds → f l c = .ok () c' → Makes f l c c')
    (hafter : Edited stages' e z) (hkinds : ∀ kind ∈ kinds, kind ≠ .morphTo ∧ kind.stage ∉ stages')
    (hm : z.models.get? l.model = some m) (hr : m.relations.get? l.name = some r) (hs : Spells l l' r.link.targets) :
    ∀ c c', Turn read f d l c c' → f l' c = .ok () c' := by
  intro c c' ht
  obtain ⟨before, after, hls, _⟩ := ht.reached
  obtain ⟨hl, hk⟩ := (hread hls).declares l (by simp)
  obtain ⟨x, c₂, c₂', ht₂, hmodel, hname, _⟩ := turns l.model l.name l.kind hk hl.line
  obtain rfl := hl.unique ht₂.declares hmodel hname
  obtain ⟨rfl, rfl⟩ := ht.unique hread ht₂.toTurn
  obtain ⟨made, link, rfl, hlk, hspelled⟩ := makes ht₂.before hk ht.left
  obtain ⟨hpointer, hstage⟩ := hlk ▸ hkinds _ hk
  have hr' := ht₂.relation hafter hlk hstage hpointer hm
  obtain rfl := Option.some_inj.mp (hr.symm.trans hr')
  exact hspelled l' hs

/-! ## Runs -/

theorem completes_reword {key name old new : String} {passes : List Pass}
    (hpasses : ∀ pass ∈ passes, Rewords key name old new pass.body) (h : Completes passes d e) :
    Completes passes (d.reword key name old new) (e.reword key name old new) := by
  induction passes generalizing d with
  | nil => exact congrArg _ h
  | cons pass rest ih =>
    obtain ⟨c, hc, h⟩ := h
    exact ⟨_, hpasses pass (by simp) d c () hc, ih (fun pass hp => hpasses pass (by simp [hp])) h⟩

/-- A pass over lines has read each line of its kinds. -/
theorem exists_declares_of_lines {kinds : List RelationKind} {read : Draft → Except SchemaFault (List DeclaredRelation)}
    {f : DeclaredRelation → Resolve Unit} (hread : ∀ {ls}, read d = .ok ls → d.Lists kinds ls)
    (h : (do (← Resolve.inspect read).forM f) d = .ok () e) {k n : String} {kind : RelationKind} (hk : kind ∈ kinds)
    (hn : (n, kind) ∈ d.relationLines k) : ∃ l, d.Declares l ∧ l.model = k ∧ l.name = n := by
  obtain ⟨ls, _, hi, _⟩ := Resolve.bind_run_ok.mp h
  obtain ⟨hls, _⟩ := Resolve.inspect_run_ok.mp hi
  obtain ⟨l, hl, hm, hname, _⟩ := (hread hls).all k n kind hk hn
  exact ⟨l, ((hread hls).declares l hl).1, hm, hname⟩

namespace Course

variable {settings : Settings} {schema : SchemaDeclaration} (c : Course settings schema) {old new : String} {m : Model}
  {r : Relation} (hw : Rewording l l' old new) (hk : l.kind ≠ .morphTo) (hm : c.complete.models.get? l.model = some m)
  (hr : m.relations.get? l.name = some r) (hs : Spells l l' r.link.targets)

/-- Each relation line of a schema that resolves can be read. -/
theorem exists_declares {k n : String} {kind : RelationKind} (hn : (n, kind) ∈ c.declared.relationLines k) :
    ∃ l, c.declared.Declares l ∧ l.model = k ∧ l.name = n := by
  have back : ∀ {stages d}, Edited stages c.declared d → ((n, kind) ∈ d.relationLines k →
      ∃ l, d.Declares l ∧ l.model = k ∧ l.name = n) → ∃ l, c.declared.Declares l ∧ l.model = k ∧ l.name = n := by
    intro stages d he h
    obtain ⟨l, hl, hm, hname⟩ := h (he.relationLines k ▸ hn)
    exact ⟨l, hl.back he, hm, hname⟩
  obtain ⟨d₁, h₁, d₂, h₂, d₃, h₃, _⟩ := c.joins
  obtain ⟨d, h₄, h₅, _⟩ := c.exists_parents
  have e₁ := c.reaches_owned.1.append (turns_belongsToMany c.sound_owned h₁).1
  have e₂ := e₁.append (turns_hasOneOrMany (c.sound_declared.edited e₁) h₂).1
  have e₃ := c.edited_joined.append c.reaches_pointed.1
  have e₄ := e₃.append (turns_morphOneOrMany c.sound_pointed h₄).1
  cases kind with
  | belongsTo => exact exists_declares_of_lines Draft.lists_of_declaredRelations c.belongsTo (by decide) hn
  | belongsToMany => exact back c.reaches_owned.1 (exists_declares_of_lines Draft.lists_of_declaredRelations h₁ (by decide))
  | hasOne | hasMany => exact back e₁ (exists_declares_of_lines (Draft.lists_of_declaredRelationsOf (by decide)) h₂ (by decide))
  | hasOneThrough | hasManyThrough =>
    exact back e₂ (exists_declares_of_lines (Draft.lists_of_declaredRelationsOf (by decide)) h₃ (by decide))
  | morphTo =>
    exact back c.edited_joined (exists_declares_of_lines Draft.lists_of_declaredRelations c.morphTo (by decide))
  | morphOne | morphMany =>
    exact back e₃ (exists_declares_of_lines (Draft.lists_of_declaredRelationsOf (by decide)) h₄ (by decide))
  | morphToMany | morphedByMany =>
    exact back e₄ (exists_declares_of_lines (Draft.lists_of_declaredRelationsOf (by decide)) h₅ (by decide))

include hw

theorem reworded_columns : Completes [.quickModels, .modelShells, .relationReservations, .columns]
    (.start settings (schema.reword l.model l.name old new)) (c.declared.reword l.model l.name old new) := by
  obtain ⟨d, hd, hrest⟩ := c.columns
  have hpasses : ∀ pass ∈ [Pass.modelShells, .relationReservations, .columns], Rewords l.model l.name old new pass.body := by
    simp only [List.forall_mem_cons]
    exact ⟨rewords_modelShells, rewords_relationReservations hw.sameKind, rewords_columns hw.sameKind, by simp⟩
  refine ⟨d.reword l.model l.name old new, ?_, completes_reword hpasses hrest⟩
  exact Resolve.update_run_ok.mpr (readDeclarations_reword hw.sameKind rfl (Resolve.update_run_ok.mp hd))

include hm hr hs

theorem reworded_belongsTo : Pass.belongsTo.body (c.declared.reword l.model l.name old new) =
    .ok () (c.owned.reword l.model l.name old new) := by
  have hawaits : c.declared.Awaits .belongsTo := awaits_of_laid c.founded_laid.2 rfl
  refine lines_run_reword (fun _ => declaredRelations_reword hw) (fun x => rewords_resolveBelongsTo x) ?_ c.belongsTo
  exact turn_spelled Draft.lists_of_declaredRelations (turns_belongsTo c.sound_declared hawaits c.belongsTo).2
    (fun hc hk hf => makes_resolveBelongsTo (c.sound_declared.edited hc).keyed (List.mem_singleton.mp hk)
      (Resolve.update_run_ok.mp hf)) c.edited_owned (by decide) hm hr hs

theorem reworded_joins : Completes [.belongsToMany, .hasOneOrMany, .hasOneOrManyThrough]
    (c.owned.reword l.model l.name old new) (c.joined.reword l.model l.name old new) := by
  obtain ⟨d₁, h₁, d₂, h₂, d₃, h₃, hd⟩ := c.joins
  have e₁ := turns_belongsToMany c.sound_owned h₁
  have s₁ := c.sound_owned.edited e₁.1
  have e₂ := turns_hasOneOrMany s₁ h₂
  have s₂ := s₁.edited e₂.1
  have e₃ := turns_hasOneOrManyThrough s₂ h₃
  have hafter := c.reaches_pointed.1.append c.edited_pointed
  rw [← hd] at hafter
  refine ⟨_, lines_run_reword (fun _ => declaredRelations_reword hw) rewords_resolveMany ?_ h₁,
    _, lines_run_reword (fun _ => declaredRelationsOf_reword hw) rewords_resolveHaving ?_ h₂,
    _, lines_run_reword (fun _ => declaredRelationsOf_reword hw) rewords_resolveThrough ?_ h₃, congrArg _ hd⟩
  · exact turn_spelled Draft.lists_of_declaredRelations e₁.2
      (fun hc hk hf => makes_resolveMany (c.sound_owned.edited hc) (List.mem_singleton.mp hk) hf)
      ((e₂.1.append e₃.1).append hafter) (by decide) hm hr hs
  · exact turn_spelled (Draft.lists_of_declaredRelationsOf (by decide)) e₂.2
      (fun hc hk hf => makes_resolveHaving (s₁.edited hc).keyed hk (Resolve.update_run_ok.mp hf))
      (e₃.1.append hafter) (by decide) hm hr hs
  · exact turn_spelled (Draft.lists_of_declaredRelationsOf (by decide)) e₃.2
      (fun hc hk hf => makes_resolveThrough (s₂.edited hc) hk (Resolve.update_run_ok.mp hf)) hafter (by decide) hm hr hs

theorem reworded_parents : Completes [.morphOneOrMany, .morphToMany] (c.pointed.reword l.model l.name old new)
    (c.linked.reword l.model l.name old new) := by
  obtain ⟨d, h₁, h₂, hsound, _⟩ := c.exists_parents
  have e₁ := turns_morphOneOrMany c.sound_pointed h₁
  have e₂ := turns_morphToMany hsound h₂
  have hafter := c.edited_pivoted.append c.edited_complete
  refine ⟨_, lines_run_reword (fun _ => declaredRelationsOf_reword hw) rewords_resolveMorphOne ?_ h₁,
    _, lines_run_reword (fun _ => declaredRelationsOf_reword hw) rewords_resolveMorphs ?_ h₂, rfl⟩
  · exact turn_spelled (Draft.lists_of_declaredRelationsOf (by decide)) e₁.2
      (fun hc hk hf => makes_resolveMorphOne (c.sound_pointed.edited hc).keyed hk (Resolve.update_run_ok.mp hf))
      (e₂.1.append hafter) (by decide) hm hr hs
  · exact turn_spelled (Draft.lists_of_declaredRelationsOf (by decide)) e₂.2
      (fun hc hk hf => makes_resolveMorphs (hsound.edited hc) hk hf) hafter (by decide) hm hr hs

omit hm hr hs

/-- The pass of pointers does not come to a line of another kind. -/
theorem reworded_morphTo (hk : l.kind ≠ .morphTo) : Pass.morphTo.body (c.joined.reword l.model l.name old new) =
    .ok () (c.pointed.reword l.model l.name old new) := by
  refine lines_run_reword (fun _ => declaredRelations_reword hw) rewords_resolveMorphTo (fun d e ht => ?_) c.morphTo
  obtain ⟨before, after, hls, _⟩ := ht.reached
  exact absurd (List.mem_singleton.mp ((Draft.lists_of_declaredRelations hls).declares l (by simp)).2) hk

include hm hr hs

/-- The models of a schema come out the same when a line spells out what was guessed for it. -/
theorem reworded (hk : l.kind ≠ .morphTo) : Completes modelPasses
    (.start settings (schema.reword l.model l.name old new)) (c.complete.reword l.model l.name old new) := by
  have hpivots : Completes [.pivotModels, .morphColumns, .modelAttributes] c.linked c.complete :=
    ⟨_, c.pivotModels, _, c.morphColumns, _, c.modelAttributes, rfl⟩
  have hrest : ∀ pass ∈ [Pass.pivotModels, .morphColumns, .modelAttributes], Rewords l.model l.name old new pass.body := by
    simp only [List.forall_mem_cons]
    exact ⟨rewords_pivotModels, rewords_morphColumns hw, rewords_modelAttributes, by simp⟩
  have hlast := (c.reworded_parents hw hm hr hs).append (completes_reword hrest hpivots)
  have hjoins := (c.reworded_joins hw hm hr hs).append (.cons (c.reworded_morphTo hw hk) hlast)
  exact (c.reworded_columns hw).append (.cons (c.reworded_belongsTo hw hm hr hs) hjoins)

end Course

end Resolution

end Schemata
