import Schemata.Proofs.Resolution.Quickened

/-!
# Passes over models that become quick

What a run has made of a model leaves room for a key and timestamps: then every pass that this run goes through succeeds on the widened
model too, and leaves it wider in the same way.
-/

namespace Schemata

open Schemata.Shorthand

/-- The columns of a model stand in another, apart from marks. -/
def Model.KeptIn (m M : Model) : Prop :=
  ∀ c ∈ m.columns.values, ∃ c' ∈ M.columns.values, c'.untagged = c.untagged

theorem Spares.of_untagged {key times : Bool} {columns others : List Column} {name : String} (h : Spares key times columns name)
    (hs : ∀ c ∈ others, ∃ c' ∈ columns, c'.untagged = c.untagged) : Spares key times others name where
  key hk hsuffix c hc := by
    obtain ⟨c', hc', hu⟩ := hs c hc
    rw [← Column.name_eq_of_untagged hu]
    exact h.key hk hsuffix c' hc'
  times := h.times

namespace Resolution

open Declaration Resolve Shorthand

variable {settings : Settings} {schema : SchemaDeclaration} {d e b : Draft} {owner : String} {key times : Bool} {m n M : Model}
  {columns : OrderedMap (Option String)} {pass : Pass} {xs ys : List Pass}

theorem Edited.keptIn {stages : List Stage} (h : Edited stages d e) (hm : d.models.get? owner = some m)
    (hM : e.models.get? owner = some M) (hauto : M.autoId = false) : m.KeptIn M := by
  intro c hc
  obtain ⟨j, hj⟩ := Slots.mem_values_iff.mp hc
  rcases (h.kept hm hM).column hj with ⟨c', hc', hu⟩ | ⟨_, hg⟩
  · exact ⟨c', Slots.mem_values_iff.mpr ⟨j, hc'⟩, hu⟩
  · exact absurd hg.2 (by simp [hauto])

/-- What a run has made of a model leaves room for a key, or for timestamps, that are added. -/
structure Course.Allows (c : Course settings schema) (owner : String) (key times : Bool) (M : Model) : Prop where
  complete : c.complete.models.get? owner = some M
  /-- The model does not give up its key. -/
  unadded : M.autoId = false
  admits : Admits key times M.columns.values
  spares {k m name r l} : c.complete.models.get? k = some m → m.relations.get? name = some r → r.link = .belongsTo l → l.model = owner →
    Spares key times M.columns.values l.columnKey

/-! ## Key columns -/

theorem Draft.Widened.mapModels {key' : Bool} {v w : String → Model → Model} (h : d.Widened owner key times e)
    (hagrees : ∀ {k m n}, d.models.get? k = some m → e.models.get? k = some n → m.Agrees (Beyond owner k) n →
      (v k m).Agrees (Beyond owner k) (w k n))
    (hwidened : ∀ {m n}, d.models.get? owner = some m → e.models.get? owner = some n → Resolution.Widened key times m n →
      Resolution.Widened key' times (v owner m) (w owner n)) :
    (d.mapModels v).Widened owner key' times (e.mapModels w) where
  agrees := h.agrees.mapBoth hagrees
  widened hm hn := by
    rw [get?_mapModels] at hm hn
    obtain ⟨m₀, hm₀, rfl⟩ := Option.map_eq_some_iff.mp hm
    obtain ⟨n₀, hn₀, rfl⟩ := Option.map_eq_some_iff.mp hn
    exact hwidened hm₀ hn₀ (h.widened hm₀ hn₀)

namespace Course

variable (c : Course settings schema)

theorem belongsTo_quickened (ha : c.Allows owner key times M) (h : c.declared.Widened owner key times b) :
    ∃ b', Pass.belongsTo.body b = .ok () b' ∧ c.owned.Widened owner key times b' := by
  obtain ⟨_, hturns⟩ := turns_belongsTo c.sound_declared (awaits_of_laid c.founded_laid.2 rfl) c.belongsTo
  refine exists_turns Draft.lists_of_declaredRelations (h.agrees.declaredRelations _) hturns (fun {l d d' a} ht hk h => ?_) h c.belongsTo
  have hk : l.kind = .belongsTo := List.mem_singleton.mp hk
  obtain ⟨m, hm⟩ : ∃ m, c.complete.models.get? l.model = some m := by
    have hmem := c.sound_declared.mem_keys ht.declares.line
    exact OrderedMap.mem_keys_iff.mp (c.edited_declared.keys ▸ hmem)
  obtain ⟨source, target, column, ho⟩ := c.owned_of_turn ht hk hm
  obtain ⟨w, ⟨_, _, _, hkey, htarget, hcolumn, rfl⟩, rfl⟩ := resolveBelongsTo_iff_putsKey.mp (update_run_ok.mp ht.left)
  obtain rfl := Except.ok.inj (ho.reference.symm.trans hkey)
  obtain rfl := Option.some_inj.mp (ho.get?_target.symm.trans htarget)
  obtain rfl := Except.ok.inj (ho.keyColumn_ok.symm.trans hcolumn)
  obtain ⟨target', htarget', hsame⟩ := h.agrees.exists_model htarget
  -- A reference to the model has the same builder, since its name spares what is added.
  have hcolumn' : keyColumn l target' = .ok column := by
    by_cases htarget : target.key = owner
    · have hw := htarget ▸ ho.get?_target
      refine (h.widened hw (htarget ▸ htarget')).keyColumn hsame (fun name hname => ?_) hcolumn
      have hspares := ha.spares hm ho.relation rfl htarget
      obtain ⟨_, _, rfl, _, hnamed⟩ := keyColumn_ok hcolumn
      rw [(hnamed name hname).1] at hspares
      exact hspares.of_untagged (ho.after.keptIn hw ha.complete ha.unadded)
    · have hS : ∀ p, Beyond owner target.key p := beyond_of_ne htarget
      rw [keyColumn_agrees hsame (hS _) (hS _) (hS _)]
      exact hcolumn
  refine ⟨_, update_run_ok.mpr (resolveBelongsTo_iff_putsKey.mpr ⟨_, ⟨_, target', column, (h.agrees.target l).trans hkey, htarget', hcolumn', rfl⟩,
    rfl⟩), h.mapModels (fun _ _ hmn => agrees_owned hmn l _ column) fun {x y} hx _ hxy => ?_⟩
  by_cases howner : owner = l.model
  · subst howner
    obtain rfl := Option.some_inj.mp (hm.symm.trans ha.complete)
    have hplace : l.name ∈ x.columns.keys := by
      have hawaits : c.declared.Awaits .belongsTo := awaits_of_laid c.founded_laid.2 rfl
      exact Slots.mem_keys_iff.mpr ⟨_, hawaits.pending (hk ▸ ht.declares.line) ht.found hx⟩
    -- The name of the key column is that of a column in the end.
    obtain ⟨placed, hplaced, hname⟩ : ∃ placed ∈ m.columns.values, placed.name = column.name := by
      rcases c.exists_named_or_given_up ho hm with ⟨j, placed, hj, hname⟩ | ⟨_, hg⟩
      · exact ⟨placed, Slots.mem_values_iff.mpr ⟨j, hj⟩, hname⟩
      · exact absurd hg.2 (by simp [ha.unadded])
    have hput := hxy.placeKey hplace (fun hkey => hname ▸ (ha.admits.key hkey placed hplaced).2.1)
      fun htimes => hname ▸ (ha.admits.times htimes placed hplaced).1
    unfold Resolution.owned fillPlace
    rw [if_pos rfl, if_pos rfl, if_pos rfl, if_pos rfl]
    exact ⟨hput.columns, hput.primary, hput.unkeyed, hput.timestamps, hput.named⟩
  · rw [owned_of_ne howner, owned_of_ne howner]
    exact hxy

end Course

/-! ## Relations -/

theorem dropAddedKey_eq (h : GivesUpKey m) : dropAddedKey m = { m with columns := m.columns.erase "id", primary := none } := by
  unfold dropAddedKey
  rw [if_pos (Bool.and_eq_true_iff.mpr h)]

theorem dropAddedKey_eq_self (h : ¬GivesUpKey m) : dropAddedKey m = m := by
  unfold dropAddedKey
  rw [if_neg fun hg => h (Bool.and_eq_true_iff.mp hg)]

/-- What others may tell of a model stays when its key is given up, if the key goes by the name by which the lack of one goes. -/
theorem agrees_dropAddedKey_outward (hname : (dropAddedKey m).primaryName = m.primaryName) :
    m.Agrees (Beyond owner owner) (dropAddedKey m) := by
  by_cases hg : GivesUpKey m
  · rw [dropAddedKey_eq hg] at hname ⊢
    refine ⟨rfl, rfl, fun {p} hp => ?_⟩
    have houtward := hp rfl
    have hsame := Part.Same.refl p m
    cases p with
    | keyName => exact hname
    | pivot | relations | parents | parentSet => exact hsame
    | _ => cases houtward
  · rw [dropAddedKey_eq_self hg]
    exact .refl _ m

/-- The model of a key has a place for each of some pointers that is its own. -/
def Draft.Places (owner : String) (pointers : List (RelationName × MorphTo)) (d : Draft) : Prop :=
  ∀ m, d.models.get? owner = some m → ∀ x ∈ pointers, x.1.model = owner → x.1.name ∈ m.columns.keys

theorem places_pointers (hd : d.Sound) (hw : d.Awaits .morphTo) : d.Places owner d.pointers := by
  rintro m hm ⟨⟨_, name⟩, link⟩ hx rfl
  obtain ⟨m', r, hm', hr, hlink⟩ := (mem_pointers_iff hd).mp hx
  obtain rfl := Option.some_inj.mp (hm.symm.trans hm')
  have hkind : r.kind = .morphTo := congrArg Link.kind hlink
  exact Slots.mem_keys_iff.mpr ⟨_, hw _ _ name hm (hkind ▸ ((hd.model _ _ hm).relation hr).2.1)⟩

namespace Draft.Widened

/-- A pass that reads what others may tell of a model, and writes neither columns nor keys. -/
theorem link (h : d.Widened owner key times b) (hp : pass ∈ linkPasses) (hreads : ∀ p ∈ pass.provides.reads, p.isOutward = true)
    (hwrites : .columns ∉ pass.provides.writes ∧ .keys ∉ pass.provides.writes) (hd : Resolution.Ready pass d) (hb : Resolution.Ready pass b)
    (hrun : pass.body d = .ok () e) : ∃ b', pass.body b = .ok () b' ∧ e.Widened owner key times b' := by
  obtain ⟨b', hb', hagrees⟩ := simulates_of_reads (S := Beyond owner) hp (fun _ p hp _ => hreads p hp) h.agrees hrun
  refine ⟨b', hb', hagrees, fun hm' hn' => ?_⟩
  have hsame : ∀ {c c' : Draft}, Resolution.Ready pass c → pass.body c = .ok () c' → ∀ {o o'}, c.models.get? owner = some o →
      c'.models.get? owner = some o' → Part.Same .columns o o' ∧ Part.Same .keys o o' := by
    intro c c' hc hrun o o' ho ho'
    have hoo' := ((edited_linkPass hp hc hrun).agrees hc.sound).models ho ho'
    exact ⟨hoo'.same fun stage hs => List.mem_singleton.mp hs ▸ hwrites.1, hoo'.same fun stage hs => List.mem_singleton.mp hs ▸ hwrites.2⟩
  obtain ⟨m, hm, _⟩ := (edited_linkPass hp hd hrun).back hm'
  obtain ⟨n, hn, _⟩ := (edited_linkPass hp hb hb').back hn'
  exact (h.widened hm hn).congr (hsame hd hrun hm hm') (hsame hb hb' hn hn')

theorem links (hxs : ∀ x ∈ xs, (∀ p ∈ x.provides.reads, p.isOutward = true) ∧ .columns ∉ x.provides.writes ∧ .keys ∉ x.provides.writes)
    (h : d.Widened owner key times b) (hd : Left xs d) (hb : Left xs b) (hrun : Completes xs d e) :
    ∃ b', Completes xs b b' ∧ e.Widened owner key times b' := by
  induction xs generalizing d b with
  | nil =>
    obtain rfl : d = e := hrun
    exact ⟨b, rfl, h⟩
  | cons x rest ih =>
    obtain ⟨c, hx, hrun⟩ := hrun
    obtain ⟨hreads, hwrites⟩ := hxs x List.mem_cons_self
    obtain ⟨a, ha, h⟩ := h.link (hd.links x List.mem_cons_self) hreads hwrites (hd.ready x List.mem_cons_self)
      (hb.ready x List.mem_cons_self) hx
    obtain ⟨b', hb', h⟩ := ih (fun y hy => hxs y (List.mem_cons_of_mem x hy)) h (hd.next hx) (hb.next ha) hrun
    exact ⟨b', ⟨a, ha, hb'⟩, h⟩

/-! ## Pivot models -/

/-- A pivot model gives up a key that was added to it, as if none had been. -/
theorem pivotModels (h : d.Widened owner key times b) (hd : ∀ {m}, d.models.get? owner = some m → m.autoId = false)
    (hb : ∀ {n}, b.models.get? owner = some n → n.autoId = key) (hrun : Pass.pivotModels.body d = .ok () e) :
    ∃ key' b', (key' = true → key = true) ∧ Pass.pivotModels.body b = .ok () b' ∧ e.Widened owner key' times b' := by
  obtain ⟨rfl, hchecked⟩ := pivotModels_ok hrun
  obtain ⟨key', hkey', hdropped⟩ : ∃ key', (key' = true → key = true) ∧ ∀ {m n}, d.models.get? owner = some m →
      b.models.get? owner = some n → Resolution.Widened key' times (dropAddedKey m) (dropAddedKey n) := by
    cases hn₀ : b.models.get? owner with
    | none => exact ⟨key, id, fun _ hn => absurd hn (by simp)⟩
    | some n₀ =>
      have hauto := hb hn₀
      by_cases hg : GivesUpKey n₀
      · obtain rfl : key = true := hauto.symm.trans hg.2
        refine ⟨false, fun _ => rfl, fun {m n} hm hn => ?_⟩
        obtain rfl := Option.some_inj.mp hn
        rw [dropAddedKey_eq_self (fun hgm => absurd hgm.2 (by simp [hd hm])), dropAddedKey_eq hg]
        exact (h.widened hm hn₀).dropped
      · refine ⟨key, id, fun {m n} hm hn => ?_⟩
        obtain rfl := Option.some_inj.mp hn
        rw [dropAddedKey_eq_self (fun hgm => absurd hgm.2 (by simp [hd hm])), dropAddedKey_eq_self hg]
        exact h.widened hm hn₀
  have hagrees : (d.mapModels fun _ m => dropAddedKey m).Widened owner key' times (b.mapModels fun _ n => dropAddedKey n) := by
    refine h.mapModels (fun {k m n} hm hn hmn => ?_) fun hm hn _ => hdropped hm hn
    by_cases hk : k = owner
    · subst hk
      have hname : (dropAddedKey n).primaryName = n.primaryName := by
        rw [(hdropped hm hn).primaryName, (h.widened hm hn).primaryName,
          dropAddedKey_eq_self (fun hgm => absurd hgm.2 (by simp [hd hm]))]
      rw [dropAddedKey_eq_self (fun hgm => absurd hgm.2 (by simp [hd hm]))]
      exact hmn.trans (agrees_dropAddedKey_outward hname)
    · have hS : ∀ p, Beyond owner k p := beyond_of_ne hk
      have hpivot : n.isPivot = m.isPivot := hmn.same (hS .pivot)
      have hauto : n.autoId = m.autoId := hmn.same (hS .autoId)
      exact agrees_dropAddedKey hmn (by unfold GivesUpKey; rw [hpivot, hauto])
  exact ⟨key', _, hkey', bind_run_ok.mpr ⟨(), _, modify_run_ok.mpr rfl, inspect_run_ok.mpr
    ⟨checkPivots_agrees (fun _ => ⟨fun _ => rfl, fun _ => rfl, fun _ _ => rfl⟩) hagrees.agrees hchecked, rfl⟩⟩, hagrees⟩

/-! ## The columns of pointers -/

theorem sameShapes (h : d.Widened owner key times b) : d.SameShapes b := by
  intro k m n hm hn husable
  by_cases hk : k = owner
  · subst hk
    exact (h.widened hm hn).keyShape husable
  · exact (h.agrees.models hm hn).keyShape (beyond_of_ne hk .keys)

/-- A turn for a pointer that has its place, which it keeps, as do the others. -/
theorem resolveMorphColumns {pointers : List (RelationName × MorphTo)} {x : RelationName × MorphTo} (hx : x ∈ pointers)
    (h : d.Widened owner key times b) (hplaced : d.Places owner pointers)
    (hrun : update (resolveMorphColumns x.1.model x.1.name x.2) d = .ok () e) :
    ∃ b', update (resolveMorphColumns x.1.model x.1.name x.2) b = .ok () b' ∧ e.Widened owner key times b' ∧
      e.Places owner pointers := by
  obtain ⟨w, hputs, rfl⟩ := plans_resolveMorphColumns.run.mp hrun
  refine ⟨_, plans_resolveMorphColumns.run.mpr ⟨w, putsPair_agrees h.agrees h.sameShapes hputs, rfl⟩, ?_⟩
  obtain ⟨_, _, column, _, _, _, rfl⟩ := hputs
  refine ⟨h.mapModels (fun {k m n} _ _ hmn => ?_) fun {m n} hm hn hmn => ?_, fun m' hm' y hy hyo => ?_⟩
  · split
    · exact agrees_columns hmn fun columns => columns.resolve x.1.name column
    · exact hmn
  · split
    · rename_i howner
      exact hmn.withColumns (hmn.columns.resolve (hplaced m hm x hx howner.symm) column)
    · exact hmn
  · rw [get?_mapModels] at hm'
    obtain ⟨m, hm, rfl⟩ := Option.map_eq_some_iff.mp hm'
    have hkey := hplaced m hm y hy hyo
    split
    · rw [Slots.keys_resolve]
      split
      · exact hkey
      · exact List.mem_append_left _ hkey
    · exact hkey

theorem morphColumns (h : d.Widened owner key times b) (hd : d.Sound) (hw : d.Awaits .morphTo)
    (hrun : Pass.morphColumns.body d = .ok () e) : ∃ b', Pass.morphColumns.body b = .ok () b' ∧ e.Widened owner key times b' := by
  have hturns : Simulates (fun c b => c.Widened owner key times b ∧ c.Places owner d.pointers)
      (d.pointers.forM fun x => .update (Resolution.resolveMorphColumns x.1.model x.1.name x.2)) :=
    .forM fun x hx _ _ _ _ h hrun => h.1.resolveMorphColumns hx h.2 hrun
  rw [morphColumns_run] at hrun ⊢
  obtain ⟨c, hc, hwidened, _⟩ := hturns ⟨h, places_pointers hd hw⟩ hrun
  exact ⟨c, forM_of_forall₂ (fun hxy hx => update_run_ok.mpr (hxy.resolveMorphColumns (update_run_ok.mp hx)))
    (h.agrees.pointers (fun _ _ => rfl) fun _ _ => rfl) hc, hwidened⟩

end Draft.Widened

/-! ## Attributes -/

/-- What a model declares as quick names nothing that is not there, if the columns that become hidden are. -/
theorem knows_quickened (h : Widened key times m n) (hm : Knows (ofColumns columns) m)
    (hno : ¬("uuid" ∈ columns.keys ∧ "id" ∈ columns.keys))
    (hnames : ∀ name, (n.relations.get? name).isSome = (m.relations.get? name).isSome)
    (hsecrets : ∀ name ∈ secretColumns columns, name ∈ m.physicalNames ∨ (m.relations.get? name).isSome) :
    Knows (quickened columns) n := by
  obtain ⟨_, _, heq⟩ := quickened_eq columns
  have hphysical : ∀ {name}, name ∈ m.physicalNames → name ∈ n.physicalNames := by
    intro name hname
    unfold Model.physicalNames at hname ⊢
    rw [h.values, List.flatMap_append, List.flatMap_append]
    exact List.mem_append_left _ (List.mem_append_right _ hname)
  have hhidden : (quickened columns).hidden = secretColumns columns := by
    rw [heq]
    exact secretColumns_quickened hno
  have hrest : (quickened columns).fillable = none ∧ (quickened columns).route = none ∧ (quickened columns).casts = .empty ∧
      (quickened columns).indexes = [] := by
    rw [heq]
    exact ⟨rfl, rfl, rfl, rfl⟩
  refine ⟨fun name hname => ?_, fun _ hs => ?_, fun _ hr => ?_, fun t ht => ?_, fun _ hn => ?_, fun _ hi => ?_⟩
  · rcases hsecrets name (hhidden ▸ hname) with hname | hname
    · exact .inl (.inl (hphysical hname))
    · exact .inr (hnames name ▸ hname)
  · rw [hrest.1] at hs
    cases hs
  · rw [hrest.2.1] at hr
    cases hr
  · rw [h.timestamps] at ht
    cases times with
    | false => exact (hm.timestamps t ht).imp hphysical hphysical
    | true =>
      obtain rfl := Option.some_inj.mp ht
      have hadded : ∀ name ∈ (Column.plain "timestamps" "timestamps").physicalNames, name ∈ n.physicalNames := by
        intro name hname
        unfold Model.physicalNames
        rw [h.values, List.flatMap_append]
        exact List.mem_append_right _ (List.mem_flatMap.mpr ⟨_, List.mem_singleton_self _, hname⟩)
      exact ⟨hadded _ (by decide), hadded _ (by decide)⟩
  · rw [hrest.2.2.1] at hn
    exact absurd hn List.not_mem_nil
  · rw [hrest.2.2.2] at hi
    exact absurd hi List.not_mem_nil

theorem agrees_withAttributes_outward (h : m.Agrees (Beyond owner owner) n) (s s' : ModelDeclaration) :
    (withAttributes s m).Agrees (Beyond owner owner) (withAttributes s' n) := by
  refine ⟨h.bare, h.names, fun {p} hp => ?_⟩
  have houtward := hp rfl
  cases p with
  | pivot | keyName | relations | parents | parentSet => exact h.same hp
  | _ => cases houtward

namespace Draft.Widened

theorem isSome_relations (h : d.Widened owner key times b) (hm : d.models.get? owner = some m) (hn : b.models.get? owner = some n)
    (name : String) : (n.relations.get? name).isSome = (m.relations.get? name).isSome :=
  (h.agrees.models hm hn).isSome_relation? (beyond_relations owner owner) name

end Draft.Widened

/-- A draft in which one model has been widened, before that model has the attributes that it then declares. -/
structure Draft.Quickens (owner : String) (columns : OrderedMap (Option String)) (key times : Bool) (d b : Draft) : Prop where
  widened : d.Widened owner key times b
  declared : d.declarations.get? owner = some (ofColumns columns)
  quickened : b.declarations.get? owner = some (Resolution.quickened columns)
  secrets {m : Model} : d.models.get? owner = some m →
    ∀ name ∈ secretColumns columns, name ∈ m.physicalNames ∨ (m.relations.get? name).isSome

namespace Draft.Quickens

/-- The turn of the model itself. -/
theorem resolveAttributes_self (h : d.Quickens owner columns key times b) (hno : ¬("uuid" ∈ columns.keys ∧ "id" ∈ columns.keys))
    (hrun : update (resolveAttributes owner) d = .ok () e) :
    ∃ b', update (resolveAttributes owner) b = .ok () b' ∧ e.Quickens owner columns key times b' := by
  obtain ⟨w, ⟨s, m, hs, hm, hcheck, _, rfl⟩, rfl⟩ := plans_resolveAttributes.run.mp hrun
  obtain rfl := Option.some_inj.mp (hs.symm.trans h.declared)
  obtain ⟨n, hn, _⟩ := h.widened.agrees.exists_model hm
  have hknows := knows_quickened (h.widened.widened hm hn) (checkAttributes_ok hcheck) hno (h.widened.isSome_relations hm hn)
    (h.secrets hm)
  have heager : checkEager b owner (Resolution.quickened columns).eager = .ok () := by
    obtain ⟨_, _, heq⟩ := quickened_eq columns
    rw [heq]
    rfl
  refine ⟨_, plans_resolveAttributes.run.mpr ⟨_, ⟨_, n, h.quickened, hn, checkAttributes_of_knows hknows, heager, rfl⟩, rfl⟩,
    h.widened.mapModels (fun _ _ hmn => ?_) fun _ _ hmn => ?_, h.declared, h.quickened, fun {m'} hm' => ?_⟩
  · split
    · rename_i hk
      subst hk
      exact agrees_withAttributes_outward hmn _ _
    · exact hmn
  · rw [if_pos rfl, if_pos rfl]
    exact ⟨hmn.columns, hmn.primary, hmn.unkeyed, hmn.timestamps, hmn.named⟩
  · rw [get?_mapModels] at hm'
    obtain ⟨m₀, hm₀, rfl⟩ := Option.map_eq_some_iff.mp hm'
    have hnames := h.secrets hm₀
    rw [if_pos rfl]
    exact hnames

/-- The turn of another model. -/
theorem resolveAttributes_of_ne (h : d.Quickens owner columns key times b) {k : String} (hk : k ≠ owner)
    (hrun : update (resolveAttributes k) d = .ok () e) :
    ∃ b', update (resolveAttributes k) b = .ok () b' ∧ e.Quickens owner columns key times b' := by
  have hkept : ∀ {c c' : Draft}, update (resolveAttributes k) c = .ok () c' →
      c'.models.get? owner = c.models.get? owner ∧ c'.declarations = c.declarations := by
    intro c c' hrun
    obtain ⟨s, _, _, _, _, _, rfl⟩ := resolveAttributes_ok_iff.mp (update_run_ok.mp hrun)
    exact ⟨by rw [get?_modifyModel, if_neg (Ne.symm hk)], rfl⟩
  obtain ⟨b', hb', hagrees⟩ := simulates_resolveAttributes (S := Beyond owner) (beyond_of_ne hk _) (beyond_of_ne hk _)
    (beyond_relations owner) (beyond_of_ne hk _) h.widened.agrees hrun
  obtain ⟨hmodel, hdeclared⟩ := hkept hrun
  obtain ⟨hmodel', hdeclared'⟩ := hkept hb'
  exact ⟨b', hb', ⟨hagrees, fun hm hn => h.widened.widened (hmodel ▸ hm) (hmodel' ▸ hn)⟩, hdeclared ▸ h.declared,
    hdeclared' ▸ h.quickened, fun hm => h.secrets (hmodel ▸ hm)⟩

theorem modelAttributes (h : d.Quickens owner columns key times b) (hno : ¬("uuid" ∈ columns.keys ∧ "id" ∈ columns.keys))
    (hrun : Pass.modelAttributes.body d = .ok () e) : ∃ b', Pass.modelAttributes.body b = .ok () b' ∧ e.Widened owner key times b' := by
  rw [modelAttributes_run] at hrun
  have hturns : Simulates (Draft.Quickens owner columns key times) (d.models.keys.forM fun k => .update (resolveAttributes k)) := by
    refine .forM fun k _ _ _ _ _ h hrun => ?_
    by_cases hk : k = owner
    · subst hk
      exact h.resolveAttributes_self hno hrun
    · exact h.resolveAttributes_of_ne hk hrun
  obtain ⟨c, hc, hquickens⟩ := hturns h hrun
  rw [← h.widened.agrees.keys] at hc
  exact ⟨c, hc, hquickens.widened⟩

end Draft.Quickens

namespace Draft.Widened

/-! ## Completion -/

theorem finalizeModels (h : d.Widened owner key times b)
    (hadmits : ∀ {m}, d.models.get? owner = some m → Admits key times m.columns.values) (hrun : Pass.finalizeModels.body d = .ok () e) :
    Pass.finalizeModels.body b = .ok () b ∧ e = d := by
  obtain ⟨rfl, hchecked⟩ := finalizeModels_ok hrun
  have hall : b.models.values.forM checkComplete = .ok () := by
    refine forM_eq_ok.mpr fun n hn => ?_
    obtain ⟨k, hn⟩ := OrderedMap.mem_values_iff.mp hn
    obtain ⟨m, hm, hnm⟩ := h.agrees.symm.exists_model hn
    have hmn := hnm.symm
    have hcheck := hchecked m (OrderedMap.mem_values_iff.mpr ⟨k, hm⟩)
    by_cases hk : k = owner
    · subst hk
      obtain ⟨hcolumns, hrelations, hphysical⟩ := checkComplete_ok hcheck
      have hw := h.widened hm hn
      unfold checkComplete
      rw [hw.columns.pendingKeys, hcolumns, hmn.pendingKeys (beyond_relations k k), hrelations, hw.values, hmn.key,
        (hadmits hm).checkPhysical hphysical]
      rfl
    · rw [checkComplete_agrees hmn (beyond_of_ne hk _) (beyond_relations owner k)]
      exact hcheck
  exact ⟨by rw [finalizeModels_run, hall], rfl⟩

/-! ## Tables -/

theorem explicitMigrations (h : d.Widened owner key times b) (hd : d.migrations = .empty)
    (hrun : Pass.explicitMigrations.body d = .ok () e) :
    ∃ b', Pass.explicitMigrations.body b = .ok () b' ∧ e.Widened owner key times b' := by
  obtain ⟨b', hb', hagrees⟩ := simulates_explicitMigrations h.agrees hrun
  obtain ⟨_, hadd, _⟩ := explicitMigrations_ok hd hrun
  obtain ⟨_, hadd', _⟩ := explicitMigrations_ok (h.agrees.migrations.trans hd) hb'
  refine ⟨b', hb', hagrees, fun hm hn => ?_⟩
  rw [hadd.rest] at hm
  rw [hadd'.rest] at hn
  exact h.widened hm hn

theorem sameTables (h : d.Widened owner key times b) : d.SameTables b := by
  intro k m n hm hn
  have hmn := h.agrees.models hm hn
  refine ⟨hmn.key, hmn.className, hmn.same (p := .keyName) fun _ => rfl, ?_, h.sameShapes hm hn⟩
  by_cases hk : k = owner
  · subst hk
    exact (h.widened hm hn).foreignMethod
  · exact hmn.foreignMethod (beyond_of_ne hk _) (beyond_of_ne hk _)

end Draft.Widened

/-- The same tables are defined, and those that differ are not made for pivots. -/
structure SameGuesses (xs ys : OrderedMap Migration) : Prop where
  keys : ys.keys = xs.keys
  same {table x y} : xs.get? table = some x → ys.get? table = some y →
    y = x ∨ x.fromGuessedPivot = false ∧ y.fromGuessedPivot = false

namespace SameGuesses

variable {xs ys : OrderedMap Migration} {x y : Migration}

theorem refl (xs : OrderedMap Migration) : SameGuesses xs xs :=
  ⟨rfl, fun hx hy => .inl (Option.some_inj.mp (hy.symm.trans hx))⟩

theorem insert (h : SameGuesses xs ys) (table : String) (hxy : y = x ∨ x.fromGuessedPivot = false ∧ y.fromGuessedPivot = false) :
    SameGuesses (xs.insert table x) (ys.insert table y) where
  keys := by rw [OrderedMap.keys_insert, OrderedMap.keys_insert, h.keys]
  same {other x' y'} hx hy := by
    rw [OrderedMap.get?_insert] at hx hy
    split at hx
    · rename_i htable
      rw [if_pos htable] at hy
      obtain rfl := Option.some_inj.mp hx
      obtain rfl := Option.some_inj.mp hy
      exact hxy
    · rename_i htable
      rw [if_neg htable] at hy
      exact h.same hx hy

end SameGuesses

/-- One model of a draft has been widened, and with it the table that was made of it. -/
structure Draft.Tabled (owner : String) (key times : Bool) (d e : Draft) : Prop where
  widened : d.Widened owner key times { e with migrations := d.migrations }
  migrations : SameGuesses d.migrations e.migrations

namespace Draft.Tabled

theorem of_widened (h : d.Widened owner key times b) : d.Tabled owner key times b where
  widened := by rw [← h.agrees.migrations]; exact h
  migrations := h.agrees.migrations ▸ .refl _

theorem addMigration {x y : Migration} (h : d.Tabled owner key times b) (ht : y.table = x.table)
    (hxy : y = x ∨ x.fromGuessedPivot = false ∧ y.fromGuessedPivot = false) :
    (addMigration d x).Tabled owner key times (Resolution.addMigration b y) where
  widened := ⟨{ h.widened.agrees with migrations := rfl }, h.widened.widened⟩
  migrations := by
    unfold Resolution.addMigration
    rw [ht]
    exact h.migrations.insert _ hxy

theorem modelMigrations (h : d.Tabled owner key times b) (hrun : Pass.modelMigrations.body d = .ok () e) :
    ∃ b', Pass.modelMigrations.body b = .ok () b' ∧ e.Tabled owner key times b' := by
  have hfold : ∀ {ms ns : List Model}, List.Forall₂ (fun m n => n.migration = m.migration ∧ n.table = m.table) ms ns →
      ∀ {d b : Draft}, d.Tabled owner key times b →
        Draft.Tabled owner key times ((ms.filter (·.migration)).foldl (fun d m => Resolution.addMigration d (modelMigration m)) d)
          ((ns.filter (·.migration)).foldl (fun d m => Resolution.addMigration d (modelMigration m)) b) := by
    intro ms ns hpairs
    induction hpairs with
    | nil => exact fun h => h
    | @cons m n ms ns hmn _ ih =>
      intro d b h
      rw [List.filter_cons, List.filter_cons, hmn.1]
      split
      · exact ih (h.addMigration hmn.2 (.inr ⟨rfl, rfl⟩))
      · exact ih h
  have hmodels : List.Forall₂ (fun m n : Model => n.migration = m.migration ∧ n.table = m.table) d.models.values b.models.values :=
    OrderedMap.forall₂_values h.widened.agrees.keys fun k m n hm hn =>
      have hmn := h.widened.agrees.models hm hn
      ⟨hmn.migration, hmn.table⟩
  obtain rfl := modify_run_ok.mp hrun
  exact ⟨_, modify_run_ok.mpr rfl, hfold hmodels h⟩

theorem pivotMigrations (h : d.Tabled owner key times b) (hrun : Pass.pivotMigrations.body d = .ok () e) :
    ∃ b', Pass.pivotMigrations.body b = .ok () b' ∧ e.Tabled owner key times b' := by
  have hpass : Simulates (Draft.Tabled owner key times) Pass.pivotMigrations.body := by
    refine .bind (.inspect fun d b ts h hts => ?_) fun ts => .forM fun x _ => .update fun d b e h hrun => ?_
    · exact pivotTables_same (e := { b with migrations := d.migrations }) (beyond_relations owner) h.widened.agrees h.widened.sameTables hts
    · rcases addPivotTable_iff.mp hrun with ⟨hnone, rfl⟩ | ⟨other, hother, hs, rfl⟩
      · have hnone' : b.migrations.get? x.2.table = none := by
          rw [OrderedMap.get?_eq_none_iff, h.migrations.keys, ← OrderedMap.get?_eq_none_iff]
          exact hnone
        exact ⟨_, addPivotTable_iff.mpr (.inl ⟨hnone', rfl⟩), h.addMigration rfl (.inl rfl)⟩
      · obtain ⟨other', hother'⟩ := OrderedMap.mem_keys_iff.mp (h.migrations.keys ▸ OrderedMap.mem_keys_iff.mpr ⟨other, hother⟩)
        refine ⟨b, addPivotTable_iff.mpr (.inr ⟨other', hother', fun hg => ?_, rfl⟩), h⟩
        rcases h.migrations.same hother hother' with rfl | ⟨_, hnot⟩
        · exact hs hg
        · exact absurd hg (by simp [hnot])
  exact hpass h hrun

theorem artifacts (h : d.Tabled owner key times b) (hrun : Pass.artifacts.body d = .ok () e) : ∃ b', Pass.artifacts.body b = .ok () b' := by
  obtain ⟨_, hmade⟩ := exists_artifacts_of_pivots (fun _ _ => rfl) h.widened.agrees hrun
  obtain ⟨made, hmade, _⟩ := bind_eq_ok.mp (update_run_ok.mp hmade)
  exact ⟨_, update_run_ok.mpr (bind_eq_ok.mpr ⟨made, hmade, rfl⟩)⟩

end Draft.Tabled

end Resolution

end Schemata
