import Schemata.Proofs.Resolution.Beside
import Schemata.Proofs.Resolution.Completion
import Schemata.Proofs.Resolution.ReorderedDeclarations

/-!
# Passes over drafts side by side

Each pass over models does with two drafts side by side what it does with each of them.
-/

namespace Schemata.Resolution

variable {keys : List String} {d a b e a' : Draft} {k : String}

/-- A step does with drafts side by side what it does with each of them. -/
def Parallel (keys : List String) (x : Resolve Unit) : Prop :=
  ∀ ⦃d a b e a'⦄, d.Beside keys a b → x d = .ok () e → x a = .ok () a' → ∃ c, x b = .ok () c ∧ e.Beside keys a' c

theorem completes_parallel {passes : List Pass} (hpasses : ∀ pass ∈ passes, Parallel keys pass.body) (h : d.Beside keys a b)
    (hd : Completes passes d e) (ha : Completes passes a a') : ∃ c, Completes passes b c ∧ e.Beside keys a' c := by
  induction passes generalizing d a b with
  | nil =>
    obtain rfl : d = e := hd
    obtain rfl : a = a' := ha
    exact ⟨b, rfl, h⟩
  | cons pass rest ih =>
    obtain ⟨d₁, hd₁, hd⟩ := hd
    obtain ⟨a₁, ha₁, ha⟩ := ha
    obtain ⟨b₁, hb₁, h⟩ := hpasses pass List.mem_cons_self h hd₁ ha₁
    obtain ⟨c, hc, h⟩ := ih (fun p hp => hpasses p (List.mem_cons_of_mem pass hp)) h hd ha
    exact ⟨c, ⟨b₁, hb₁, hc⟩, h⟩

/-! ## Shells -/

section

variable {settings : Settings} {schema schema' both : SchemaDeclaration}

/-- The first two passes read the declarations and make shells of them, of which any two may meet. -/
theorem completes_shells_iff : Completes [.quickModels, .modelShells] (.start settings schema) d ↔
    ∃ read shells, schema.models.entries.mapM (fun (key, value) => return (key, ← modelDeclaration key value)) = .ok read ∧
      read.mapM (fun x => modelShell settings [] x.1 x.2) = .ok shells ∧ shells.Pairwise MayMeet ∧
      d = { Draft.start settings schema with
        declarations := .ofList read, models := .ofList (shells.map fun m => (m.key, m)) } := by
  constructor
  · rintro ⟨_, hq, c, hs, rfl⟩
    obtain ⟨read, hr, rfl⟩ := quickModels_iff.mp hq
    obtain ⟨shells, hmade, hp, rfl⟩ := (modelShells_iff rfl).mp hs
    dsimp only at hmade
    rw [OrderedMap.entries_ofList (nodup_read hr)] at hmade
    exact ⟨read, shells, hr, hmade, hp, rfl⟩
  · rintro ⟨read, shells, hr, hmade, hp, rfl⟩
    refine ⟨_, quickModels_iff.mpr ⟨read, hr, rfl⟩, _, (modelShells_iff rfl).mpr ⟨shells, ?_, hp, rfl⟩, rfl⟩
    dsimp only
    rw [OrderedMap.entries_ofList (nodup_read hr)]
    exact hmade

/-- Two schemas of which the models may meet make drafts that stand side by side. -/
theorem beside_shells (hboth : both.models.Joins schema.models schema'.models) (htables : both.migrations = schema.migrations)
    (hd : Completes [.quickModels, .modelShells] (.start settings schema) d)
    (ha : Completes [.quickModels, .modelShells] (.start settings schema') a)
    (hmeet : ∀ m ∈ d.models.values, ∀ n ∈ a.models.values, MayMeet m n)
    (hexact : ∀ l, d.Declares l → l.NamesKeys d.models.keys) (hlines : ∀ k, a.relationLines k = []) :
    ∃ b, Completes [.quickModels, .modelShells] (.start settings both) b ∧ d.Beside d.models.keys a b := by
  obtain ⟨_, _, hshelled⟩ := shelled_of_completes hd
  obtain ⟨_, _, hshelled'⟩ := shelled_of_completes ha
  obtain ⟨read, shells, hr, hs, hp, rfl⟩ := completes_shells_iff.mp hd
  obtain ⟨read', shells', hr', hs', hp', rfl⟩ := completes_shells_iff.mp ha
  have hread : both.models.entries.mapM (fun (key, value) => return (key, ← modelDeclaration key value)) = .ok (read ++ read') := by
    rw [hboth]
    exact mapM_append_ok hr hr'
  have hshells := mapM_append_ok hs hs'
  -- The models of a draft are the shells that were made for it.
  have hvalues : ∀ {read : List (String × ModelDeclaration)} {shells : List Model}, (read.map Prod.fst).Nodup →
      read.mapM (fun x => modelShell settings [] x.1 x.2) = .ok shells →
      (OrderedMap.ofList (shells.map fun m => (m.key, m))).values = shells := by
    intro read shells hn hs
    unfold OrderedMap.values
    rw [entries_shells hn hs, List.map_map]
    exact List.map_id _
  have hmeet' : (shells ++ shells').Pairwise MayMeet :=
    List.pairwise_append.mpr ⟨hp, hp', fun m hm n hn =>
      hmeet m ((hvalues (nodup_read hr) hs).symm ▸ hm) n ((hvalues (nodup_read hr') hs').symm ▸ hn)⟩
  have hcompletes := completes_shells_iff.mpr ⟨read ++ read', shells ++ shells', hread, hshells, hmeet', rfl⟩
  obtain ⟨_, _, hboth⟩ := shelled_of_completes hcompletes
  refine ⟨_, hcompletes, rfl, htables, OrderedMap.joins_ofList (nodup_read hread), ?_, ⟨[], [], rfl, rfl⟩, ?_, rfl,
    hshelled.keys.symm, hshelled'.keys, hexact, hlines, ?_⟩
  · unfold OrderedMap.Joins
    dsimp only
    rw [entries_shells (nodup_read hread) hshells, entries_shells (nodup_read hr) hs, entries_shells (nodup_read hr') hs',
      List.map_append]
  · intro k m hm
    obtain ⟨_, _, hshell⟩ := hboth.shell k m hm
    exact hshell.key
  · intro m hm
    obtain ⟨k, hk⟩ := OrderedMap.mem_values_iff.mp hm
    obtain ⟨_, _, hshell⟩ := hshelled'.shell k m hk
    exact hshell.relations

end

/-! ## Lines -/

namespace Draft.Beside

variable (h : d.Beside keys a b)
include h

theorem kindOf?_added {l : DeclaredLine} (hl : l ∈ a.lines) : DeclaredRelation.kindOf? l.call = none := by
  refine Option.eq_none_iff_forall_ne_some.mpr fun kind hk => ?_
  have hmem : (l.name, kind) ∈ a.relationLines l.model := mem_relationLines_iff_mem_lines.mpr ⟨l, hl, rfl, rfl, hk⟩
  rw [h.noLines] at hmem
  exact absurd hmem List.not_mem_nil

/-- The lines that a pass reads are those of the first draft. -/
theorem filter_lines {p : DeclaredLine → Bool} (hp : ∀ l, DeclaredRelation.kindOf? l.call = none → p l = false) :
    a.lines.filter p = [] ∧ b.lines.filter p = d.lines.filter p := by
  have hadded : a.lines.filter p = [] := List.filter_eq_nil_iff.mpr fun l hl => by simp [hp l (h.kindOf?_added hl)]
  have hlines : b.lines = d.lines ++ a.lines := by
    unfold lines
    rw [h.declarations, List.flatMap_append]
  rw [hlines, List.filter_append, hadded, List.append_nil]
  exact ⟨rfl, rfl⟩

theorem declaredRelations (kind : RelationKind) :
    a.declaredRelations kind = .ok [] ∧ b.declaredRelations kind = d.declaredRelations kind := by
  obtain ⟨ha, hb⟩ := h.filter_lines (p := fun l => DeclaredRelation.kindOf? l.call = some kind) fun l hl => by simp [hl]
  unfold Draft.declaredRelations
  rw [ha, hb]
  exact ⟨rfl, rfl⟩

theorem declaredRelationsOf (first second : RelationKind) :
    a.declaredRelationsOf first second = .ok [] ∧ b.declaredRelationsOf first second = d.declaredRelationsOf first second := by
  unfold Draft.declaredRelationsOf
  rw [(h.declaredRelations first).1, (h.declaredRelations first).2, (h.declaredRelations second).1, (h.declaredRelations second).2]
  exact ⟨rfl, rfl⟩

end Draft.Beside

theorem parallel_lines {kinds : List RelationKind} {read : Draft → Except SchemaFault (List DeclaredRelation)}
    {f : DeclaredRelation → Resolve Unit} (hread : ∀ {d a b}, d.Beside keys a b → read a = .ok [] ∧ read b = read d)
    (hlists : ∀ {d ls}, read d = .ok ls → d.Lists kinds ls)
    (hf : ∀ {a l}, l.NamesKeys keys → l.model ∈ keys → l.kind ∈ kinds → Frames keys a (f l)) :
    Parallel keys (do (← Resolve.inspect read).forM f) := by
  intro d a b e a' h hd ha
  obtain ⟨ls, _, hi, hd⟩ := Resolve.bind_run_ok.mp hd
  obtain ⟨hls, rfl⟩ := Resolve.inspect_run_ok.mp hi
  obtain ⟨none, _, hi, ha⟩ := Resolve.bind_run_ok.mp ha
  obtain ⟨hnone, rfl⟩ := Resolve.inspect_run_ok.mp hi
  obtain rfl := Except.ok.inj ((hread h).1.symm.trans hnone)
  obtain rfl := Resolve.forM_nil_run_ok.mp ha
  have hframes : Frames keys a (ls.forM f) := .forM fun l hl => by
    obtain ⟨hdeclares, hkind⟩ := (hlists hls).declares l hl
    have hmodel : l.model ∈ keys := by
      obtain ⟨s, _, hs, _⟩ := hdeclares
      exact h.declared ▸ OrderedMap.mem_keys_iff.mpr ⟨s, hs⟩
    exact hf (h.exact l hdeclares) hmodel hkind
  obtain ⟨c, hc, hbeside⟩ := hframes h hd
  exact ⟨c, Resolve.bind_run_ok.mpr ⟨ls, b, Resolve.inspect_run_ok.mpr ⟨(hread h).2.trans hls, rfl⟩, hc⟩, hbeside⟩

theorem ne_morphTo_of_mem {kinds : List RelationKind} {kind : RelationKind} (hk : kind ∈ kinds) (hkinds : .morphTo ∉ kinds) :
    kind ≠ .morphTo :=
  fun heq => hkinds (heq ▸ hk)

theorem parallel_belongsTo : Parallel keys Pass.belongsTo.body :=
  parallel_lines (fun h => h.declaredRelations _) Draft.lists_of_declaredRelations
    fun hl hm hk => frames_resolveBelongsTo hl hm (ne_morphTo_of_mem hk (by decide))

theorem parallel_belongsToMany : Parallel keys Pass.belongsToMany.body :=
  parallel_lines (fun h => h.declaredRelations _) Draft.lists_of_declaredRelations
    fun hl hm hk => frames_resolveMany hl hm (ne_morphTo_of_mem hk (by decide))

theorem parallel_hasOneOrMany : Parallel keys Pass.hasOneOrMany.body :=
  parallel_lines (fun h => h.declaredRelationsOf _ _) (Draft.lists_of_declaredRelationsOf (by decide))
    fun hl hm hk => frames_resolveHaving hl hm (ne_morphTo_of_mem hk (by decide))

theorem parallel_hasOneOrManyThrough : Parallel keys Pass.hasOneOrManyThrough.body :=
  parallel_lines (fun h => h.declaredRelationsOf _ _) (Draft.lists_of_declaredRelationsOf (by decide))
    fun hl hm hk => frames_resolveThrough hl hm hk

theorem parallel_morphTo : Parallel keys Pass.morphTo.body :=
  parallel_lines (fun h => h.declaredRelations _) Draft.lists_of_declaredRelations fun _ hm _ => frames_resolveMorphTo hm

theorem parallel_morphOneOrMany : Parallel keys Pass.morphOneOrMany.body :=
  parallel_lines (fun h => h.declaredRelationsOf _ _) (Draft.lists_of_declaredRelationsOf (by decide))
    fun hl hm hk => frames_resolveMorphOne hl hm (ne_morphTo_of_mem hk (by decide))

theorem parallel_morphToMany : Parallel keys Pass.morphToMany.body :=
  parallel_lines (fun h => h.declaredRelationsOf _ _) (Draft.lists_of_declaredRelationsOf (by decide))
    fun hl hm hk => frames_resolveMorphs hl hm (ne_morphTo_of_mem hk (by decide))

/-! ## Places -/

theorem parallel_relationReservations : Parallel keys Pass.relationReservations.body := by
  intro d a b e a' h hd ha
  obtain rfl := Resolve.modify_run_ok.mp hd
  obtain rfl := Resolve.modify_run_ok.mp ha
  refine ⟨_, Resolve.modify_run_ok.mpr rfl, ?_⟩
  obtain ⟨hadded, hlines⟩ := h.filter_lines (p := fun l => (DeclaredRelation.kindOf? l.call).isSome) fun l hl => by simp [hl]
  unfold reserveRelations
  rw [hadded, hlines]
  have hfold : ∀ (ls : List DeclaredLine), (∀ l ∈ ls, l.model ∈ keys) → ∀ {d b : Draft}, d.Beside keys a b →
      (ls.foldl reserveLine d).Beside keys a (ls.foldl reserveLine b) := by
    intro ls
    induction ls with
    | nil => exact fun _ _ _ h => h
    | cons l rest ih =>
      intro hls d b h
      exact ih (fun l' hl' => hls l' (List.mem_cons_of_mem l hl')) (h.modifyModel (hls l List.mem_cons_self) fun _ => rfl)
  refine hfold _ (fun l hl => ?_) h
  obtain ⟨s, _, hs, _⟩ := Draft.mem_lines_iff.mp (List.mem_filter.mp hl).1
  exact h.declared ▸ OrderedMap.mem_keys_iff.mpr ⟨s, hs⟩

/-! ## Steps of one model -/

/-- Related drafts may change the model of a key alike, on which they agree. -/
structure Accords (R : Draft → Draft → Prop) (k : String) : Prop where
  within {d b : Draft} : R d b → d.Within b
  modify {d b : Draft} {f : Model → Model} : R d b → (∀ m, (f m).key = m.key ∧ (f m).relations = m.relations) →
    R (d.modifyModel k f) (b.modifyModel k f)

theorem accords_left (hk : k ∈ keys) : Accords (fun d b => d.Beside keys a b) k :=
  ⟨fun h => h.left, fun h hf => h.modifyModel hk fun m => (hf m).1⟩

theorem accords_right {added : List String} (hk : k ∈ added) :
    Accords (fun a b => d.Beside keys a b ∧ a.models.keys = added) k :=
  ⟨fun h => h.1.right, fun h hf => ⟨h.1.modifyModel_right (h.2 ▸ hk) hf, (OrderedMap.keys_modify ..).trans h.2⟩⟩

namespace Accords

variable {R : Draft → Draft → Prop} (h : Accords R k)
include h

theorem declareColumns (s : ModelDeclaration) : Simulates R (Resolution.declareColumns k s) := by
  intro d b _ e hR hrun
  obtain ⟨m, hm⟩ := exists_model_of_declareColumns hrun
  obtain ⟨primary, hderives, rfl⟩ := (declareColumns_iff hm).mp hrun
  have hm' : b.models.get? k = some m := Draft.model_eq_ok.mp (Steady.model k (h.within hR) (Draft.model_eq_ok.mpr hm))
  refine ⟨_, (declareColumns_iff hm').mpr ⟨primary, hderives, rfl⟩, ?_⟩
  rw [← Draft.modifyModel_eq hm fun m => derived s primary (withLines m s.columns.entries),
    ← Draft.modifyModel_eq hm' fun m => derived s primary (withLines m s.columns.entries)]
  refine h.modify hR fun m => ?_
  obtain ⟨columns, heq⟩ := exists_columns_withLines m s.columns.entries
  rw [heq]
  exact ⟨rfl, rfl⟩

theorem resolveAttributes : Simulates R (.update (Resolution.resolveAttributes k)) := by
  refine .update fun d b e hR hrun => ?_
  have hwithin := h.within hR
  obtain ⟨s, m, hs, hm, hcheck, heager, rfl⟩ := resolveAttributes_ok_iff.mp hrun
  have hs' : b.declarations.get? k = some s :=
    Draft.declaration_eq_ok.mp (Steady.declaration k hwithin (Draft.declaration_eq_ok.mpr hs))
  have hm' : b.models.get? k = some m := Draft.model_eq_ok.mp (Steady.model k hwithin (Draft.model_eq_ok.mpr hm))
  exact ⟨_, resolveAttributes_ok_iff.mpr ⟨s, m, hs', hm', hcheck, steady_checkEager k s.eager hwithin heager, rfl⟩,
    h.modify hR fun _ => ⟨rfl, rfl⟩⟩

end Accords

/-- A loop over the keys of two drafts side by side is a loop over those of the first and then one over those of the other. -/
theorem parallel_forM {α : Type} {f : α → Resolve Unit} {xs ys : List α} (key : α → String) (h : d.Beside keys a b)
    (hf : ∀ {R x}, Accords R (key x) → Simulates R (f x)) (hx : ∀ x ∈ xs, key x ∈ keys) (hy : ∀ y ∈ ys, key y ∈ a.models.keys)
    (hd : xs.forM f d = .ok () e) (ha : ys.forM f a = .ok () a') :
    ∃ c, (xs ++ ys).forM f b = .ok () c ∧ e.Beside keys a' c := by
  have hleft : Frames keys a (xs.forM f) := .forM fun x hmem => hf (accords_left (hx x hmem))
  obtain ⟨c, hc, hbeside⟩ := hleft h hd
  have hright : Simulates (fun a' b => e.Beside keys a' b ∧ a'.models.keys = a.models.keys) (ys.forM f) :=
    .forM fun y hmem => hf (accords_right (hy y hmem))
  obtain ⟨c', hc', hbeside, _⟩ := hright ⟨hbeside, rfl⟩ ha
  exact ⟨c', Resolve.forM_append_run_ok.mpr ⟨c, hc, hc'⟩, hbeside⟩

theorem parallel_columns : Parallel keys Pass.columns.body := by
  intro d a b e a' h hd ha
  rw [columns_run] at hd ha
  have hright : ∀ x ∈ a.declarations.entries, x.1 ∈ a.models.keys := fun x hx => h.added ▸ List.mem_map_of_mem hx
  have hleft : ∀ x ∈ d.declarations.entries, x.1 ∈ keys := fun x hx => h.declared ▸ List.mem_map_of_mem hx
  obtain ⟨c, hc, hbeside⟩ := parallel_forM Prod.fst h (fun haccords => haccords.declareColumns _) hleft hright hd ha
  rw [← h.declarations] at hc
  exact ⟨c, hc, hbeside⟩

theorem parallel_modelAttributes : Parallel keys Pass.modelAttributes.body := by
  intro d a b e a' h hd ha
  rw [modelAttributes_run] at hd ha
  obtain ⟨c, hc, hbeside⟩ := parallel_forM id h (fun haccords => haccords.resolveAttributes) (fun k hk => h.known ▸ hk)
    (fun _ hk => hk) hd ha
  rw [← h.models.keys] at hc
  exact ⟨c, hc, hbeside⟩

/-! ## Pivot models and pointers -/

theorem Draft.Beside.dropAddedKeys (h : d.Beside keys a b) :
    Draft.Beside keys { d with models := d.models.mapEntries fun _ m => dropAddedKey m }
      { a with models := a.models.mapEntries fun _ m => dropAddedKey m }
      { b with models := b.models.mapEntries fun _ m => dropAddedKey m } where
  settings := h.settings
  tables := h.tables
  declarations := h.declarations
  models := h.models.mapEntries _
  migrations := h.migrations
  keyed := by
    intro k n hn
    rw [OrderedMap.get?_mapEntries] at hn
    obtain ⟨m, hm, rfl⟩ := Option.map_eq_some_iff.mp hn
    exact (sameIdentity_dropAddedKey m).key.trans (h.keyed k m hm)
  known := (OrderedMap.keys_mapEntries ..).trans h.known
  declared := h.declared
  added := (OrderedMap.keys_mapEntries ..).trans h.added
  exact := h.exact
  noLines := h.noLines
  noRelations := by
    intro n hn
    obtain ⟨k, hk⟩ := OrderedMap.mem_values_iff.mp hn
    rw [OrderedMap.get?_mapEntries] at hk
    obtain ⟨m, hm, rfl⟩ := Option.map_eq_some_iff.mp hk
    exact (relations_dropAddedKey m).trans (h.noRelations m (OrderedMap.mem_values_iff.mpr ⟨k, hm⟩))

theorem parallel_pivotModels : Parallel keys Pass.pivotModels.body := by
  intro d a b e a' h hd ha
  obtain ⟨_, d₁, hdrop, hd⟩ := Resolve.bind_run_ok.mp hd
  obtain rfl := Resolve.modify_run_ok.mp hdrop
  obtain ⟨hchecked, rfl⟩ := Resolve.inspect_run_ok.mp hd
  obtain ⟨_, a₁, hdrop, ha⟩ := Resolve.bind_run_ok.mp ha
  obtain rfl := Resolve.modify_run_ok.mp hdrop
  obtain ⟨_, rfl⟩ := Resolve.inspect_run_ok.mp ha
  have hbeside := h.dropAddedKeys
  refine ⟨_, Resolve.bind_run_ok.mpr ⟨(), _, Resolve.modify_run_ok.mpr rfl, Resolve.inspect_run_ok.mpr ⟨?_, rfl⟩⟩, hbeside⟩
  refine forM_eq_ok.mpr fun m hm => forM_eq_ok.mpr fun r hr => ?_
  rw [hbeside.models.values] at hm
  rcases List.mem_append.mp hm with hm | hm
  · exact steady_checkPivot m.key r hbeside.left (forM_eq_ok.mp (forM_eq_ok.mp hchecked m hm) r hr)
  · rw [hbeside.noRelations m hm] at hr
    exact absurd hr List.not_mem_nil

theorem frames_resolveMorphColumns (hk : k ∈ keys) (relation : String) (link : MorphTo) :
    Frames keys a (.update (resolveMorphColumns k relation link)) := by
  refine .update fun d b e h hrun => ?_
  obtain ⟨parents, shape, found, column, hne, hparents, hshape, hfound, hcolumn, rfl⟩ := resolveMorphColumns_ok_iff.mp hrun
  exact ⟨_, resolveMorphColumns_ok_iff.mpr ⟨parents, shape, found, column, hne, Steady.mapM Steady.model link.models h.left hparents,
    hshape, steady_declaredRelation? k relation h.left hfound, hcolumn, rfl⟩, h.modifyModel hk fun _ => rfl⟩

theorem pointers_of_noRelations (h : ∀ m ∈ d.models.values, m.relations = .empty) : d.pointers = [] := by
  refine List.flatMap_eq_nil_iff.mpr fun m hm => ?_
  unfold Model.morphToRelations
  rw [h m hm]
  rfl

theorem parallel_morphColumns : Parallel keys Pass.morphColumns.body := by
  intro d a b e a' h hd ha
  rw [morphColumns_run] at hd ha
  have hnone : a.pointers = [] := pointers_of_noRelations h.noRelations
  have hpointers : b.pointers = d.pointers ++ a.pointers := by
    unfold Draft.pointers
    rw [h.models.values, List.flatMap_append]
  rw [hnone] at ha hpointers
  obtain rfl := Resolve.forM_nil_run_ok.mp ha
  have hframes : Frames keys a (d.pointers.forM fun x => .update (resolveMorphColumns x.1.model x.1.name x.2)) := .forM fun x hx => by
    obtain ⟨m, hm, hx⟩ := List.mem_flatMap.mp hx
    obtain ⟨_, _, rfl⟩ := List.mem_map.mp hx
    exact frames_resolveMorphColumns (h.known ▸ h.keyed_left.key_mem hm) _ _
  obtain ⟨c, hc, hbeside⟩ := hframes h hd
  refine ⟨c, ?_, hbeside⟩
  rw [morphColumns_run, hpointers, List.append_nil]
  exact hc

theorem parallel_finalizeModels : Parallel keys Pass.finalizeModels.body := by
  intro d a b e a' h hd ha
  obtain ⟨rfl, hd⟩ := finalizeModels_ok hd
  obtain ⟨rfl, ha⟩ := finalizeModels_ok ha
  have hall : b.models.values.forM checkComplete = .ok () := by
    refine forM_eq_ok.mpr fun m hm => ?_
    rw [h.models.values] at hm
    rcases List.mem_append.mp hm with hm | hm
    · exact hd m hm
    · exact ha m hm
  refine ⟨b, ?_, h⟩
  rw [finalizeModels_run, hall]

/-- All passes over models do with drafts side by side what they do with each of them. -/
theorem parallel_of_mem : ∀ pass ∈ modelPasses.drop 2 ++ [.finalizeModels], Parallel keys pass.body := by
  unfold modelPasses
  simp only [List.drop_succ_cons, List.drop_zero, List.cons_append, List.nil_append, List.forall_mem_cons]
  exact ⟨parallel_relationReservations, parallel_columns, parallel_belongsTo, parallel_belongsToMany, parallel_hasOneOrMany,
    parallel_hasOneOrManyThrough, parallel_morphTo, parallel_morphOneOrMany, parallel_morphToMany, parallel_pivotModels,
    parallel_morphColumns, parallel_modelAttributes, parallel_finalizeModels, fun _ h => absurd h List.not_mem_nil⟩

end Schemata.Resolution
