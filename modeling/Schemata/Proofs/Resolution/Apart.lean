import Schemata.Proofs.Resolution.Completion
import Schemata.Proofs.Resolution.Footprints

/-!
# Passes that may change places

Two passes may change places if neither reads what the other writes. What both write is the same in the end if all that either does
to it is to add to it.
-/

namespace Schemata

theorem Relation.parents_eq_nil {r : Relation} (h : r.kind ≠ .morphTo) : r.link.parents = [] := by
  obtain ⟨name, methods, link⟩ := r
  cases link <;> first | rfl | exact absurd rfl h

/-- What may be told of models without regard to which of several claims on a pivot model has come first, and to the order in which
pointers have learned of their parents. -/
def Part.Lasting (p : Part) : Prop :=
  p ≠ .type ∧ p ≠ .parents

namespace Resolution

variable {S T : String → Part → Prop} {d e c : Draft} {k : String} {m n o x : Model} {stages : List Stage} {stage : Stage}
  {pass : Pass} {lines : List (String × RelationKind)} {keys : List String}

/-! ## What passes read and write -/

/-- The passes that fill the places of relations and of their key columns. -/
def linkPasses : List Pass :=
  [.belongsTo, .belongsToMany, .hasOneOrMany, .hasOneOrManyThrough, .morphTo, .morphOneOrMany, .morphToMany, .pivotModels,
   .morphColumns]

namespace Stage

/-- What the pass of a stage reads of models that other passes may write. -/
def reads : Stage → List Part
  | .belongsTo => [.keyName, .keys, .columns]
  | .belongsToMany => [.keyName]
  | .hasOneOrMany | .hasOneOrManyThrough => [.relations .belongsTo]
  | .morphOneOrMany | .morphToMany => [.relations .morphTo]
  | .pivotModels =>
    [.pivot, .autoId, .relations .belongsTo, .relations .morphTo, .relations .belongsToMany, .relations .morphToMany,
     .relations .morphedByMany]
  | .morphColumns => [.keys, .relations .morphTo, .parentSet]
  | _ => []

/-- What the pass of a stage writes into models. -/
def writes : Stage → List Part
  | .belongsTo => [.columns, .relations .belongsTo]
  | .belongsToMany => [.type, .pivot, .relations .belongsToMany]
  | .hasOneOrMany => [.relations .hasOne, .relations .hasMany]
  | .hasOneOrManyThrough => [.relations .hasOneThrough, .relations .hasManyThrough]
  | .morphTo => [.relations .morphTo, .parents, .parentSet]
  | .morphOneOrMany => [.relations .morphOne, .relations .morphMany, .parents, .parentSet]
  | .morphToMany => [.type, .pivot, .relations .morphToMany, .relations .morphedByMany, .parents, .parentSet]
  | .pivotModels => [.keyName, .keys, .columns]
  | .morphColumns => [.columns]
  | .modelAttributes => [.attributes]
  | _ => []

/-- The pass of a stage but adds to pivots and to the parents of pointers. -/
def adds : Stage → Bool
  | .belongsToMany | .morphOneOrMany | .morphToMany => true
  | _ => false

theorem relations_mem_writes (kind : RelationKind) : .relations kind ∈ kind.stage.writes := by
  cases kind <;> decide

end Stage

theorem simulates_of_reads (hp : pass ∈ linkPasses) (hS : ∀ k, ∀ p ∈ pass.provides.reads, S k p) :
    Simulates (Draft.Agrees S) pass.body := by
  have hread : ∀ {p}, p ∈ pass.provides.reads → ∀ k, S k p := fun hp k => hS k _ hp
  simp only [linkPasses, List.mem_cons, List.not_mem_nil, or_false] at hp
  rcases hp with rfl | rfl | rfl | rfl | rfl | rfl | rfl | rfl | rfl
  · exact simulates_belongsTo (hread (by decide)) (hread (by decide)) (hread (by decide))
  · exact simulates_belongsToMany (hread (by decide))
  · exact simulates_hasOneOrMany (hread (by decide))
  · exact simulates_hasOneOrManyThrough (hread (by decide))
  · exact simulates_morphTo
  · exact simulates_morphOneOrMany (hread (by decide))
  · exact simulates_morphToMany (hread (by decide))
  · exact simulates_pivotModels (fun k => ⟨hS k _ (by decide), hS k _ (by decide), fun hk => by
      simp only [List.mem_cons, List.not_mem_nil, or_false] at hk
      rcases hk with rfl | rfl | rfl <;> exact hS k _ (by decide)⟩) (hread (by decide)) (hread (by decide))
  · exact simulates_morphColumns (hread (by decide)) (hread (by decide)) (hread (by decide))

/-! ## What passes leave alone -/

/-- A relation that comes to its place changes the relations of its kind, and parents if it is a pointer. -/
theorem agrees_fill {name : String} {r : Relation} (hname : name ∈ m.relations.keys) (hp : r.link.parents = [])
    (hold : ∀ {r₀}, m.relations.get? name = some r₀ → r₀.kind = r.kind) :
    m.Agrees (fun p => p ≠ .relations r.kind ∧ (r.kind = .morphTo → p ≠ .parents ∧ p ≠ .parentSet))
      { m with relations := m.relations.resolve name r } := by
  have hparents : r.kind ≠ .morphTo → m.parentsAt name = [] := by
    intro hk
    unfold Model.parentsAt
    cases hr : m.relations.get? name with
    | none => rfl
    | some r₀ => exact Relation.parents_eq_nil (hold hr ▸ hk)
  refine ⟨rfl, ?_, fun {p} hw => ?_⟩
  · rw [Slots.keys_resolve, if_pos hname]
  have hsame := Part.Same.refl p m
  cases p with
  | relations kind =>
    intro j
    rw [Model.shown_resolve]
    split
    · rename_i hj
      have hne : r.kind ≠ kind := fun heq => hw.1 (heq ▸ rfl)
      rw [if_neg hne, hj]
      unfold Model.shown
      cases hr : m.relations.get? name with
      | none => rfl
      | some r₀ => simp [Option.filter, hold hr, hne]
    · rfl
  | parents =>
    intro j
    rw [Model.parentsAt_resolve]
    split
    · rename_i hj
      rw [hj, hp, hparents fun hk => (hw.2 hk).1 rfl]
    · rfl
  | parentSet =>
    intro j q
    rw [Model.parentsAt_resolve]
    split
    · rename_i hj
      rw [hj, hp, hparents fun hk => (hw.2 hk).2 rfl]
    · rfl
  | _ => exact hsame

/-- A parent that a pointer learns of changes nothing but parents. -/
theorem agrees_learn (m : Model) (name parent : String) : m.Agrees (fun p => p ≠ .parents ∧ p ≠ .parentSet)
    { m with relations := m.relations.modify name (Relation.mapMorphTo (·.addModel parent)) } := by
  refine ⟨rfl, Slots.keys_modify .., fun {p} hw => ?_⟩
  have hsame := Part.Same.refl p m
  cases p with
  | relations kind => exact fun j => Model.shown_addModel ..
  | parents => exact absurd rfl hw.1
  | parentSet => exact absurd rfl hw.2
  | _ => exact hsame

/-- A change of columns changes nothing else. -/
theorem agrees_withColumns (m : Model) (columns : Slots Column) : m.Agrees (· ≠ .columns) { m with columns } := by
  refine ⟨rfl, rfl, fun {p} hw => ?_⟩
  have hsame := Part.Same.refl p m
  cases p with
  | columns => exact absurd rfl hw
  | _ => exact hsame

/-- A step leaves alone what its pass does not write. -/
theorem Edit.agrees (h : Edit lines keys stages m n) (hm : Sound lines keys m)
    (hunique : ∀ {name kind kind'}, (name, kind) ∈ lines → (name, kind') ∈ lines → kind = kind') :
    m.Agrees (fun p => ∀ stage ∈ stages, p ∉ stage.writes) n := by
  cases h with
  | @fill name methods link hs hl hr hp =>
    refine (agrees_fill (hm.names ▸ List.mem_map_of_mem hl) hp fun hr => hunique (hm.relation hr).2.1 hl).mono fun {p} hw => ⟨?_, ?_⟩
    · rintro rfl
      exact hw _ hs (Stage.relations_mem_writes link.kind)
    · intro hk
      have hstage : link.kind.stage = .morphTo := congrArg RelationKind.stage hk
      rw [hstage] at hs
      constructor <;> (rintro rfl; exact hw _ hs (by decide))
  | @addParent name parent hs hp =>
    refine (agrees_learn m name parent).mono fun {p} hw => ?_
    rcases hs with hs | hs <;> constructor <;> (rintro rfl; exact hw _ hs (by decide))
  | @claim type hs ht =>
    refine ⟨rfl, rfl, fun {p} hw => ?_⟩
    have hne : p ≠ .type ∧ p ≠ .pivot := by
      rcases hs with hs | hs <;> constructor <;> (rintro rfl; exact hw _ hs (by decide))
    have hsame := Part.Same.refl p m
    cases p with
    | type => exact absurd rfl hne.1
    | pivot => exact absurd rfl hne.2
    | _ => exact hsame
  | placeKey hs hf =>
    rw [placeKey_eq]
    refine (agrees_withColumns m _).mono fun {p} hw => ?_
    rintro rfl
    exact hw _ hs (by decide)
  | dropAddedKey hs =>
    unfold Resolution.dropAddedKey
    split
    · refine ⟨rfl, rfl, fun {p} hw => ?_⟩
      have hsame := Part.Same.refl p m
      cases p with
      | keyName | columns | keys => exact absurd (by decide) (hw _ hs)
      | _ => exact hsame
    · exact .refl _ m
  | pair hs hf =>
    refine (agrees_withColumns m _).mono fun {p} hw => ?_
    rintro rfl
    exact hw _ hs (by decide)
  | @attributes s hs =>
    refine ⟨rfl, rfl, fun {p} hw => ?_⟩
    have hsame := Part.Same.refl p m
    cases p with
    | attributes => exact absurd (by decide) (hw _ hs)
    | _ => exact hsame

theorem Edited.agrees (hd : d.Sound) (h : Edited stages d e) : d.Agrees (fun _ p => ∀ stage ∈ stages, p ∉ stage.writes) e where
  settings := by rw [h.rest]
  tables := by rw [h.rest]
  lines := by rw [h.rest]; rfl
  line k name := by rw [h.rest]; rfl
  declared := by rw [h.rest]
  declarations _ := by rw [h.rest]
  keys := h.keys
  migrations := by rw [h.rest]
  models {k m n} hm hn :=
    (h.keeps (P := fun o => Resolution.Sound (d.relationLines k) d.models.keys o ∧
        m.Agrees (fun p => ∀ stage ∈ stages, p ∉ stage.writes) o)
      (fun hs hP => ⟨hP.1.edit hs, hP.2.trans (hs.agrees hP.1 Draft.kind_unique)⟩) hm hn ⟨hd.model k m hm, .refl _ m⟩).2

/-! ## Drafts that are ready for a pass -/

/-- The draft is as the pass has to find it. -/
structure Ready (pass : Pass) (d : Draft) : Prop where
  sound : d.Sound
  awaits {kind} : kind.needsColumn = true → keyStage kind = pass.provides → d.Awaits kind

theorem Ready.edited (h : Ready pass d) (he : Edited stages d e) (hs : pass.provides ∉ stages) : Ready pass e where
  sound := h.sound.edited he
  awaits hk heq := (h.awaits hk heq).edited h.sound he (heq ▸ hs)

theorem edited_linkPass (hp : pass ∈ linkPasses) (hd : Ready pass d) (h : pass.body d = .ok () e) : Edited [pass.provides] d e := by
  simp only [linkPasses, List.mem_cons, List.not_mem_nil, or_false] at hp
  rcases hp with rfl | rfl | rfl | rfl | rfl | rfl | rfl | rfl | rfl
  · exact (edited_belongsTo hd.sound (hd.awaits (by decide) (by decide)) h).1
  · exact (edited_belongsToMany hd.sound h).1
  · exact (edited_hasOneOrMany hd.sound h).1
  · exact (edited_hasOneOrManyThrough hd.sound h).1
  · exact (edited_morphTo h).1
  · exact (edited_morphOneOrMany hd.sound h).1
  · exact (edited_morphToMany hd.sound h).1
  · exact edited_pivotModels h
  · exact (edited_morphColumns hd.sound (hd.awaits (by decide) (by decide)) h).1

/-! ## Passes that add -/

/-- A model is a pivot model if either of two others is, and its pointers have the parents of both. -/
structure Model.Joined (x m n : Model) : Prop where
  pivot : n.isPivot = true ↔ m.isPivot = true ∨ x.isPivot = true
  parents {name} : Model.pointsAt m name → ∀ p, p ∈ n.parentsAt name ↔ p ∈ m.parentsAt name ∨ p ∈ x.parentsAt name

theorem joined_claimType (h : Model.Joined x m n) (pivot : Option String) {type : ModelType} (ht : type.isPivot = true) :
    Model.Joined x (claimType pivot type k m) (claimType pivot type k n) := by
  unfold claimType
  split
  · exact ⟨by simp [Model.isPivot, ht], h.parents⟩
  · exact h

/-- A relation other than a pointer has no parents. -/
theorem joined_fillPlace (h : Model.Joined x m n) (l : DeclaredRelation) {link : Link} (hk : link.kind ≠ .morphTo) :
    Model.Joined x (fillPlace l link k m) (fillPlace l link k n) := by
  unfold fillPlace
  split
  · refine ⟨h.pivot, fun {name} hpoints p => ?_⟩
    have hne : name ≠ l.name := by
      rintro rfl
      obtain ⟨r, hr, hkind⟩ := hpoints
      rw [Slots.get?_resolve, if_pos rfl] at hr
      obtain rfl := Option.some_inj.mp hr
      exact hk hkind
    have hbefore : Model.pointsAt m name := by
      obtain ⟨r, hr, hkind⟩ := hpoints
      rw [Slots.get?_resolve, if_neg hne] at hr
      exact ⟨r, hr, hkind⟩
    rw [Model.parentsAt_resolve, if_neg hne, Model.parentsAt_resolve, if_neg hne]
    exact h.parents hbefore p
  · exact h

theorem pointsAt_addModel (m : Model) (name j parent : String) :
    Model.pointsAt { m with relations := m.relations.modify name (Relation.mapMorphTo (·.addModel parent)) } j ↔
      Model.pointsAt m j := by
  rw [Model.pointsAt_iff_shown, Model.pointsAt_iff_shown, Model.shown_addModel]

theorem joined_addModel {S : Part → Prop} (h : Model.Joined x m n) (hmn : m.Agrees S n) (hS : S (.relations .morphTo))
    (name parent : String) :
    Model.Joined x { m with relations := m.relations.modify name (Relation.mapMorphTo (·.addModel parent)) }
      { n with relations := n.relations.modify name (Relation.mapMorphTo (·.addModel parent)) } := by
  refine ⟨h.pivot, fun {j} hpoints p => ?_⟩
  have hj := (pointsAt_addModel m name j parent).mp hpoints
  have hsame : Model.pointsAt n name ↔ Model.pointsAt m name := by
    rw [Model.pointsAt_iff_shown, Model.pointsAt_iff_shown, hmn.same hS name]
  rw [Model.parentsAt_addModel, Model.parentsAt_addModel, hsame]
  split
  · rw [mem_learned, mem_learned, h.parents hj, or_assoc]
  · exact h.parents hj p

theorem joined_joinParent {S : Part → Prop} (h : Model.Joined x m n) (hmn : m.Agrees S n) (hS : S (.relations .morphTo))
    (place : MorphOneOrMany) (parent : String) : Model.Joined x (joinParent place parent k m) (joinParent place parent k n) := by
  unfold joinParent
  split
  · exact joined_addModel h hmn hS _ _
  · exact h

theorem joined_joinPivot {S : Part → Prop} (h : Model.Joined x m n) (hmn : m.Agrees S n) (hS : S (.relations .morphTo))
    (l : DeclaredRelation) (link : MorphToMany) : Model.Joined x (joinPivot l link k m) (joinPivot l link k n) := by
  unfold joinPivot
  split
  · rw [addParent_eq, addParent_eq, pointerNamed?_agrees hmn hS]
    cases pointerNamed? link.relationKey m with
    | none => exact h
    | some name => exact joined_addModel h hmn hS name _
  · exact h

/-- Each model of a draft joins those of two others. -/
def Draft.Joined (c d e : Draft) : Prop :=
  ∀ ⦃k x m n⦄, c.models.get? k = some x → d.models.get? k = some m → e.models.get? k = some n → Model.Joined x m n

theorem Draft.Joined.mapModels {w : String → Model → Model} (h : c.Joined d e) (hde : d.Agrees S e)
    (hw : ∀ {k x m n}, Model.Joined x m n → m.Agrees (S k) n → Model.Joined x (w k m) (w k n)) :
    c.Joined (d.mapModels w) (e.mapModels w) := by
  intro k x m n hx hm hn
  rw [get?_mapModels] at hm hn
  obtain ⟨m₀, hm₀, rfl⟩ := Option.map_eq_some_iff.mp hm
  obtain ⟨n₀, hn₀, rfl⟩ := Option.map_eq_some_iff.mp hn
  exact hw (h hx hm₀ hn₀) (hde.models hm₀ hn₀)

/-- Drafts that agree, of which one joins the other with a third. -/
def InStep (S : String → Part → Prop) (c d e : Draft) : Prop :=
  d.Agrees S e ∧ c.Joined d e

theorem simulates_joining {α : Type} {f : Resolve Unit} {read : Draft → Except SchemaFault α} {effect : α → String → Model → Model}
    (run : ∀ {d e}, f d = .ok () e ↔ ∃ r, read d = .ok r ∧ e = d.mapModels (effect r))
    (reads : ∀ {d e}, d.Agrees S e → read e = read d)
    (writes : ∀ {r k m n}, m.Agrees (S k) n → (effect r k m).Agrees (S k) (effect r k n))
    (joins : ∀ {r k x m n}, Model.Joined x m n → m.Agrees (S k) n → Model.Joined x (effect r k m) (effect r k n)) :
    Simulates (InStep S c) f := by
  intro d b _ e h hrun
  obtain ⟨r, hr, rfl⟩ := run.mp hrun
  exact ⟨_, run.mpr ⟨r, (reads h.1).trans hr, rfl⟩, h.1.mapModels writes, h.2.mapModels h.1 joins⟩

theorem inStep_of_adds (hp : pass ∈ linkPasses) (ha : pass.provides.adds = true) (hS : ∀ k, ∀ p ∈ pass.provides.reads, S k p) :
    Simulates (InStep S c) pass.body := by
  have hread : ∀ {p}, p ∈ pass.provides.reads → ∀ k, S k p := fun hp k => hS k _ hp
  simp only [linkPasses, List.mem_cons, List.not_mem_nil, or_false] at hp
  rcases hp with rfl | rfl | rfl | rfl | rfl | rfl | rfl | rfl | rfl <;> try exact absurd ha (by decide)
  · exact simulates_lines (fun h => h.1.declaredRelations _) fun _ =>
      simulates_joining outward_resolveMany.run (readMany_agrees (hread (by decide))) (fun h => agrees_turned h _ _ _)
        fun h _ => joined_fillPlace (joined_claimType h _ rfl) _ (by simp [Link.kind])
  · have hpoints : ∀ k, S k (.relations .morphTo) := hread (by decide)
    exact simulates_lines (fun h => h.1.declaredRelationsOf _ _) fun l =>
      simulates_joining outward_resolveMorphOne.run (readMorphOne_agrees hpoints)
        (fun {_ k _ _} h => agrees_fillPlace (agrees_joinParent h (hpoints k) _ _) l _)
        fun {_ k _ _ _} h hmn => joined_fillPlace (joined_joinParent h hmn (hpoints k) _ _) l
          (by unfold morphLink; split <;> simp [Link.kind])
  · have hpoints : ∀ k, S k (.relations .morphTo) := hread (by decide)
    exact simulates_lines (fun h => h.1.declaredRelationsOf _ _) fun l =>
      simulates_joining outward_resolveMorphs.run readMorphs_agrees
        (fun {_ k _ _} h => agrees_fillPlace (agrees_joinPivot (agrees_claimType h _ _) (hpoints k) l _) l _)
        fun {_ k _ _ _} h hmn => joined_fillPlace (joined_joinPivot (joined_claimType h _ rfl) (agrees_claimType hmn _ _) (hpoints k) l _) l
          (by unfold morphsLink; split <;> simp [Link.kind])

/-- What a pass has added stays, unless pointers are made anew. -/
theorem joined_of_edited (hd : d.Sound) (h : Edited stages d e) (hs : .morphTo ∉ stages) : e.Joined d e := by
  intro k x m n hx hm hn
  obtain rfl := Option.some_inj.mp (hx.symm.trans hn)
  have hgrows := h.keeps (P := fun o => Resolution.Sound (d.relationLines k) d.models.keys o ∧
      (m.isPivot = true → o.isPivot = true) ∧
      ∀ name, Model.pointsAt m name → Model.pointsAt o name ∧ ∀ p ∈ m.parentsAt name, p ∈ o.parentsAt name) ?_ hm hn
    ⟨hd.model k m hm, id, fun _ hname => ⟨hname, fun _ => id⟩⟩
  · exact ⟨⟨.inr, fun h => h.elim hgrows.2.1 id⟩, fun hname p => ⟨.inr, fun h => h.elim ((hgrows.2.2 _ hname).2 p) id⟩⟩
  rintro o o' he ⟨hsound, hpivot, hparents⟩
  refine ⟨hsound.edit he, ?_⟩
  cases he with
  | @fill filled methods link hstage hl _ _ =>
    refine ⟨hpivot, fun name hname => ?_⟩
    obtain ⟨⟨r, hr, hkind⟩, hp⟩ := hparents name hname
    have hne : name ≠ filled := by
      rintro rfl
      have hlink : link.kind = .morphTo := (Draft.kind_unique (hsound.relation hr).2.1 hl).symm.trans hkind
      rw [hlink] at hstage
      exact hs hstage
    refine ⟨⟨r, by rw [Slots.get?_resolve, if_neg hne]; exact hr, hkind⟩, fun p hpm => ?_⟩
    rw [Model.parentsAt_resolve, if_neg hne]
    exact hp p hpm
  | @addParent learner parent _ _ =>
    refine ⟨hpivot, fun name hname => ?_⟩
    obtain ⟨hpoints, hp⟩ := hparents name hname
    refine ⟨(pointsAt_addModel ..).mpr hpoints, fun p hpm => ?_⟩
    rw [Model.parentsAt_addModel]
    split
    · exact mem_learned.mpr (.inr (hp p hpm))
    · exact hp p hpm
  | claim _ ht => exact ⟨fun _ => ht, hparents⟩
  | @placeKey name column _ _ =>
    rw [placeKey_eq]
    exact ⟨hpivot, hparents⟩
  | dropAddedKey _ =>
    unfold Resolution.dropAddedKey
    split <;> exact ⟨hpivot, hparents⟩
  | _ => exact ⟨hpivot, hparents⟩

/-! ## Two passes in either order -/

/-- The pass of neither stage reads what that of the other writes, and what both write both but add to. -/
def Stage.Apart (x y : Stage) : Prop :=
  (∀ p ∈ x.writes, p ∉ y.reads) ∧ (∀ p ∈ y.writes, p ∉ x.reads) ∧
    ∀ p ∈ x.writes, p ∈ y.writes → x.adds ∧ y.adds ∧ p ∈ [Part.type, .pivot, .parents, .parentSet]

instance (x y : Stage) : Decidable (x.Apart y) :=
  inferInstanceAs (Decidable (_ ∧ _ ∧ _))

/-- Drafts that agree in a scope agree in a wider one if they have the same in what is added. -/
theorem Draft.Agrees.extend (h : d.Agrees S e) (hT : ∀ {k p}, T k p → S k p ∨ p ≠ .declaration ∧
    ∀ {m n}, d.models.get? k = some m → e.models.get? k = some n → p.Same m n) : d.Agrees T e :=
  { h with
    declarations := fun hk => h.declarations ((hT hk).resolve_right fun hr => hr.1 rfl)
    models := fun hm hn =>
      have hmn := h.models hm hn
      ⟨hmn.bare, hmn.names, fun hp => (hT hp).elim hmn.same fun hr => hr.2 hm hn⟩ }

theorem parentsAt_eq_nil {name : String} (h : ¬Model.pointsAt m name) : m.parentsAt name = [] := by
  unfold Model.parentsAt
  cases hr : m.relations.get? name with
  | none => rfl
  | some r => exact Relation.parents_eq_nil fun hk => h ⟨r, hr, hk⟩

/-- Two models are pivot models alike and have the same parents if both join the same two. -/
theorem same_of_joined {n' : Model} {p : Part} (hp : p = .pivot ∨ p = .parentSet) (h : Model.Joined m x n) (h' : Model.Joined x m n')
    (hx : ∀ name, Model.pointsAt x name ↔ Model.pointsAt n name) (hm : ∀ name, Model.pointsAt m name ↔ Model.pointsAt n name)
    (hn : ∀ name, Model.pointsAt n' name ↔ Model.pointsAt n name) : p.Same n n' := by
  rcases hp with rfl | rfl
  · exact Bool.eq_iff_iff.mpr (h'.pivot.trans (or_comm.trans h.pivot.symm))
  · intro name p
    by_cases hpoints : Model.pointsAt n name
    · rw [h'.parents ((hm name).mpr hpoints), h.parents ((hx name).mpr hpoints), or_comm]
    · rw [parentsAt_eq_nil hpoints, parentsAt_eq_nil fun h => hpoints ((hn name).mp h)]

theorem Draft.Agrees.pointsAt (h : d.Agrees S e) (hS : S k (.relations .morphTo)) (hm : d.models.get? k = some m)
    (hn : e.models.get? k = some n) (name : String) : Model.pointsAt n name ↔ Model.pointsAt m name := by
  rw [Model.pointsAt_iff_shown, Model.pointsAt_iff_shown, (h.models hm hn).same hS name]

theorem Stage.not_mem_writes_of_adds {x : Stage} (h : x.adds = true) : x ≠ .morphTo ∧ .relations .morphTo ∉ x.writes := by
  revert h
  cases x <;> decide

/-- What two passes both add is there in the end in either order. -/
theorem same_of_adds {c' e' : Draft} {first second : Pass} (hf : first ∈ linkPasses) (hs : second ∈ linkPasses)
    (haf : first.provides.adds = true) (has : second.provides.adds = true)
    (hsr : ∀ p ∈ first.provides.writes, p ∉ second.provides.reads) (hfr : ∀ p ∈ second.provides.writes, p ∉ first.provides.reads)
    (hd : d.Sound) (e₁ : Edited [first.provides] d c) (e₃ : Edited [second.provides] d c') (h₁ : first.body d = .ok () c)
    (h₂ : second.body c = .ok () e) (h₃ : second.body d = .ok () c') (h₄ : first.body c' = .ok () e') {p : Part}
    (hp : p = .pivot ∨ p = .parentSet) (hm : e.models.get? k = some m) (hn : e'.models.get? k = some n) : p.Same m n := by
  have turn : ∀ {x y : Pass} {a a' b : Draft}, y ∈ linkPasses → x.provides.adds = true → y.provides.adds = true →
      (∀ p ∈ x.provides.writes, p ∉ y.provides.reads) → Edited [x.provides] d a → y.body d = .ok () b → y.body a = .ok () a' →
      b.Agrees (fun _ p => p ∉ x.provides.writes) a' ∧ a.Joined b a' := by
    intro x y a a' b hy hx hay hreads hxa hyb hya
    have hda : d.Agrees (fun _ p => p ∉ x.provides.writes) a := (hxa.agrees hd).mono fun hp stage hs => List.mem_singleton.mp hs ▸ hp
    have hne : Stage.morphTo ∉ [x.provides] := by simpa using (Stage.not_mem_writes_of_adds hx).1.symm
    obtain ⟨a'', ha'', hin⟩ := inStep_of_adds hy hay (fun _ p hp hw => hreads p hw hp) ⟨hda, joined_of_edited hd hxa hne⟩ hyb
    rw [hya] at ha''
    injection ha'' with _ heq
    exact heq ▸ hin
  obtain ⟨hc'e, hjoined⟩ := turn hs haf has hsr e₁ h₃ h₂
  obtain ⟨hce', hjoined'⟩ := turn hf has haf hfr e₃ h₁ h₄
  obtain ⟨x, hx, _⟩ := hc'e.symm.exists_model hm
  obtain ⟨y, hy, _⟩ := hce'.symm.exists_model hn
  have hdc : d.Agrees (fun _ p => p ∉ first.provides.writes) c := (e₁.agrees hd).mono fun hp stage hs => List.mem_singleton.mp hs ▸ hp
  have hdc' : d.Agrees (fun _ p => p ∉ second.provides.writes) c' := (e₃.agrees hd).mono fun hp stage hs => List.mem_singleton.mp hs ▸ hp
  obtain ⟨o, ho, _⟩ := hdc.symm.exists_model hy
  have hpointer := Stage.not_mem_writes_of_adds haf
  have hpointer' := Stage.not_mem_writes_of_adds has
  have hxm := fun name => (hc'e.pointsAt hpointer.2 hx hm name).symm
  have hox := hdc'.pointsAt hpointer'.2 ho hx
  have hoy := hdc.pointsAt hpointer.2 ho hy
  have hyn := hce'.pointsAt hpointer'.2 hy hn
  have hym : ∀ name, Model.pointsAt y name ↔ Model.pointsAt m name := fun name =>
    (hoy name).trans ((hox name).symm.trans (hxm name))
  exact same_of_joined hp (hjoined hy hx hm) (hjoined' hx hy hn) hxm hym fun name => (hyn name).trans (hym name)

theorem exists_swapped {first second : Pass} (hf : first ∈ linkPasses) (hs : second ∈ linkPasses)
    (hne : first.provides ≠ second.provides) (ha : first.provides.Apart second.provides) (hfirst : Ready first d)
    (hsecond : Ready second d) (h₁ : first.body d = .ok () c) (h₂ : second.body c = .ok () e) :
    ∃ c' e', second.body d = .ok () c' ∧ first.body c' = .ok () e' ∧ e.Agrees (fun _ => Part.Lasting) e' := by
  obtain ⟨hsr, hfr, hboth⟩ := ha
  have off : ∀ {x : Pass} {a b : Draft}, a.Sound → Edited [x.provides] a b → a.Agrees (fun _ p => p ∉ x.provides.writes) b :=
    fun ha h => (h.agrees ha).mono fun hp stage hs => List.mem_singleton.mp hs ▸ hp
  have e₁ := edited_linkPass hf hfirst h₁
  have e₂ := edited_linkPass hs (hsecond.edited e₁ (by simpa using hne.symm)) h₂
  -- The second pass does not see that the first has not run, nor the first that the second has.
  obtain ⟨c', h₃, hec'⟩ := simulates_of_reads hs (fun _ p hp hw => hsr p hw hp) (off hfirst.sound e₁).symm h₂
  have e₃ := edited_linkPass hs hsecond h₃
  obtain ⟨e', h₄, hce'⟩ := simulates_of_reads hf (fun _ p hp hw => hfr p hw hp) (off hfirst.sound e₃) h₁
  have e₄ := edited_linkPass hf (hfirst.edited e₃ (by simpa using hne)) h₄
  have hleft := hec'.trans (off (hfirst.sound.edited e₃) e₄)
  have hright := (off (hfirst.sound.edited e₁) e₂).symm.trans hce'
  refine ⟨c', e', h₃, h₄, hleft.extend fun {k p} hlasting => or_iff_not_imp_left.mpr fun hw => ?_⟩
  have hw : p ∈ first.provides.writes := not_not.mp hw
  refine ⟨?_, fun hm hn => ?_⟩
  · rintro rfl
    revert hw
    cases first.provides <;> decide
  · by_cases hw' : p ∈ second.provides.writes
    · obtain ⟨haf, has, hp⟩ := hboth p hw hw'
      have hp : p = .pivot ∨ p = .parentSet := by
        simp only [List.mem_cons, List.not_mem_nil, or_false] at hp
        rcases hp with rfl | rfl | rfl | rfl
        · exact absurd rfl hlasting.1
        · exact .inl rfl
        · exact absurd rfl hlasting.2
        · exact .inr rfl
      exact same_of_adds hf hs haf has hsr hfr hfirst.sound e₁ e₃ h₁ h₂ h₃ h₄ hp hm hn
    · exact (hright.models hm hn).same hw'

end Resolution

end Schemata
