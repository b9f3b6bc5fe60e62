import Mathlib.Logic.Relation
import Schemata.Proofs.Resolution.Edits
import Schemata.Proofs.Resolution.Run

/-!
# Steps of drafts

A draft goes along a pass when each of its models goes steps of that pass. A pass over relation lines comes to each line once,
and finds the place of the line as it was before the pass.
-/

namespace Schemata.Resolution

variable {d e : Draft} {k : String} {m n : Model} {stages : List Stage}

/-- Each model has gone any number of steps of one kind, and nothing else has changed. -/
structure Along (E : List (String × RelationKind) → List String → Model → Model → Prop) (d e : Draft) : Prop where
  rest : e = { d with models := e.models }
  keys : e.models.keys = d.models.keys
  model : ∀ {k m}, d.models.get? k = some m →
    ∃ n, e.models.get? k = some n ∧ Relation.ReflTransGen (E (d.relationLines k) d.models.keys) m n

/-- The draft goes along the pass of columns. -/
abbrev Declared : Draft → Draft → Prop :=
  Along fun lines _ => Declaring lines

/-- The draft goes along the passes of some stages after that of columns. -/
abbrev Edited (stages : List Stage) : Draft → Draft → Prop :=
  Along fun lines keys => Edit lines keys stages

variable {E : List (String × RelationKind) → List String → Model → Model → Prop}

theorem Along.declarations (h : Along E d e) : e.declarations = d.declarations := by
  rw [h.rest]

theorem Along.relationLines (h : Along E d e) (k : String) : e.relationLines k = d.relationLines k := by
  unfold Draft.relationLines
  rw [h.declarations]

instance : IsPreorder Draft (Along E) where
  refl d := ⟨rfl, rfl, fun h => ⟨_, h, .refl⟩⟩
  trans d e f h h' := by
    refine ⟨?_, h'.keys.trans h.keys, fun hm => ?_⟩
    · rw [h'.rest, h.rest]
    · obtain ⟨n, hn, hp⟩ := h.model hm
      obtain ⟨o, ho, hq⟩ := h'.model hn
      rw [h.relationLines, h.keys] at hq
      exact ⟨o, ho, hp.trans hq⟩

theorem Along.back (h : Along E d e) (hn : e.models.get? k = some n) :
    ∃ m, d.models.get? k = some m ∧ Relation.ReflTransGen (E (d.relationLines k) d.models.keys) m n := by
  have hk : k ∈ d.models.keys := h.keys ▸ OrderedMap.mem_keys_iff.mpr ⟨n, hn⟩
  obtain ⟨m, hm⟩ := OrderedMap.mem_keys_iff.mp hk
  obtain ⟨o, ho, hp⟩ := h.model hm
  obtain rfl := Option.some_inj.mp (hn.symm.trans ho)
  exact ⟨m, hm, hp⟩

theorem Along.mono {E' : List (String × RelationKind) → List String → Model → Model → Prop} (h : Along E d e)
    (he : ∀ {lines keys m n}, E lines keys m n → E' lines keys m n) : Along E' d e where
  rest := h.rest
  keys := h.keys
  model hm := by
    obtain ⟨n, hn, hp⟩ := h.model hm
    exact ⟨n, hn, Relation.ReflTransGen.mono (fun _ _ h => he h) _ _ hp⟩

/-- What each step keeps of the models holds after all of them. -/
theorem Along.forall {P : String → Model → Prop} (h : Along E d e)
    (keep : ∀ {k m n}, E (d.relationLines k) d.models.keys m n → P k m → P k n)
    (hd : ∀ k m, d.models.get? k = some m → P k m) : ∀ k n, e.models.get? k = some n → P k n := by
  intro k n hn
  obtain ⟨m, hm, hp⟩ := h.back hn
  have hP : ∀ o, Relation.ReflTransGen (E (d.relationLines k) d.models.keys) m o → P k o := by
    intro o hp
    induction hp with
    | refl => exact hd k m hm
    | tail _ hs ih => exact keep hs ih
  exact hP n hp

theorem Along.keeps {P : Model → Prop} (h : Along E d e)
    (step : ∀ {m n}, E (d.relationLines k) d.models.keys m n → P m → P n)
    (hm : d.models.get? k = some m) (hn : e.models.get? k = some n) (hP : P m) : P n := by
  obtain ⟨m', hm', hp⟩ := h.back hn
  obtain rfl := Option.some_inj.mp (hm.symm.trans hm')
  clear hn
  induction hp with
  | refl => exact hP
  | tail _ hs ih => exact step hs ih

theorem Along.sameIdentity (h : Along E d e) (same : ∀ {lines keys m n}, E lines keys m n → SameIdentity m n)
    (hm : d.models.get? k = some m) (hn : e.models.get? k = some n) : SameIdentity m n :=
  h.keeps (P := SameIdentity m) (fun hs hP => hP.trans (same hs)) hm hn (.refl m)

theorem Along.of_modifyModel {key : String} {f : Model → Model} (h : ∀ m, d.models.get? key = some m →
    Relation.ReflTransGen (E (d.relationLines key) d.models.keys) m (f m)) : Along E d (d.modifyModel key f) where
  rest := rfl
  keys := OrderedMap.keys_modify _ _ _
  model {k m} hm := by
    rw [Draft.get?_modifyModel]
    split
    · rename_i hk
      subst hk
      exact ⟨f m, by rw [hm]; rfl, h m hm⟩
    · exact ⟨m, hm, .refl⟩

theorem Along.of_mapEntries {f : Model → Model}
    (h : ∀ k m, d.models.get? k = some m → E (d.relationLines k) d.models.keys m (f m)) :
    Along E d { d with models := d.models.mapEntries fun _ m => f m } where
  rest := rfl
  keys := OrderedMap.keys_mapEntries _ _
  model {k m} hm := ⟨f m, by rw [OrderedMap.get?_mapEntries, hm]; rfl, .single (h k m hm)⟩

/-- What holds of a draft once its relations have their places. -/
structure Draft.Sound (d : Draft) : Prop where
  keys : d.models.keys = d.declarations.keys
  keyed : d.Keyed
  model : ∀ k m, d.models.get? k = some m → Resolution.Sound (d.relationLines k) d.models.keys m

theorem Draft.Sound.along (hd : d.Sound) (h : Along E d e)
    (keyed : ∀ {lines keys m n}, E lines keys m n → SameIdentity m n)
    (sound : ∀ {lines keys m n}, E lines keys m n → Resolution.Sound lines keys m → Resolution.Sound lines keys n) :
    e.Sound where
  keys := by rw [h.keys, h.declarations, hd.keys]
  keyed := h.forall (P := fun k m => m.key = k) (fun hs hm => (keyed hs).key.trans hm) hd.keyed
  model := by
    simp only [h.relationLines, h.keys]
    exact h.forall (P := fun k => Resolution.Sound (d.relationLines k) d.models.keys) sound hd.model

theorem Draft.Sound.declared (hd : d.Sound) (h : Declared d e) : e.Sound :=
  hd.along h Declaring.sameIdentity fun hs hm => hm.declaring hs

theorem Draft.Sound.edited (hd : d.Sound) (h : Edited stages d e) : e.Sound :=
  hd.along h Edit.sameIdentity fun hs hm => hm.edit hs

theorem Draft.Sound.mem_keys (hd : d.Sound) {name : String} {kind : RelationKind}
    (h : (name, kind) ∈ d.relationLines k) : k ∈ d.models.keys := by
  unfold Draft.relationLines at h
  rw [hd.keys]
  cases hs : d.declarations.get? k with
  | none => rw [hs] at h; exact absurd h List.not_mem_nil
  | some s => exact OrderedMap.mem_keys_iff.mpr ⟨s, hs⟩

theorem Draft.Declares.along {l : DeclaredRelation} (hl : d.Declares l) (h : Along E d e) : e.Declares l := by
  obtain ⟨s, text, hs, ht, hp⟩ := hl
  exact ⟨s, text, h.declarations ▸ hs, ht, hp⟩

theorem Draft.Declares.back {l : DeclaredRelation} (hl : e.Declares l) (h : Along E d e) : d.Declares l := by
  obtain ⟨s, text, hs, ht, hp⟩ := hl
  exact ⟨s, text, h.declarations ▸ hs, ht, hp⟩

theorem Edited.mono {stages' : List Stage} (h : Edited stages d e) (hs : stages ⊆ stages') : Edited stages' d e := by
  refine Along.mono h fun {lines keys m n} he => ?_
  cases he with
  | fill h₁ h₂ h₃ h₄ => exact .fill (hs h₁) h₂ h₃ h₄
  | addParent h₁ h₂ => exact .addParent (h₁.imp (@hs _) (@hs _)) h₂
  | claim h₁ h₂ => exact .claim (h₁.imp (@hs _) (@hs _)) h₂
  | placeKey h₁ h₂ => exact .placeKey (hs h₁) h₂
  | dropAddedKey h₁ => exact .dropAddedKey (hs h₁)
  | pair h₁ h₂ => exact .pair (hs h₁) h₂
  | attributes h₁ => exact .attributes (hs h₁)

theorem Edited.append {first second : List Stage} {c : Draft} (h : Edited first d c) (h' : Edited second c e) :
    Edited (first ++ second) d e :=
  trans_of (Edited (first ++ second)) (h.mono (List.subset_append_left _ _)) (h'.mono (List.subset_append_right _ _))

/-! ## Places -/

/-- What stands at the place of a relation line. -/
def Draft.atPlace (d : Draft) (k name : String) : Option (Option (Option Column) × Option Relation) :=
  (d.models.get? k).map (Resolution.atPlace name)

/-- What stands at the place of a relation. -/
def Draft.standing (r : RelationName) (d : Draft) : Option (Option (Option Column) × Option Relation) :=
  d.atPlace r.model r.name

theorem Draft.atPlace_of_get? (hm : d.models.get? k = some m) {name : String} :
    d.atPlace k name = some (Resolution.atPlace name m) := by
  unfold atPlace
  rw [hm]
  rfl

theorem Draft.atPlace_modifyModel {key name : String} {f : Model → Model}
    (h : key = k → ∀ m, Resolution.atPlace name (f m) = Resolution.atPlace name m) :
    (d.modifyModel key f).atPlace k name = d.atPlace k name := by
  unfold atPlace
  rw [get?_modifyModel]
  split
  · rename_i hk
    rw [Option.map_map]
    exact congrArg (Option.map · _) (funext (h hk.symm))
  · rfl

theorem Draft.atPlace_resolveRelation {l : DeclaredRelation} {link : Link} {name : String} (h : l.relation ≠ ⟨k, name⟩) :
    (d.resolveRelation l link).atPlace k name = d.atPlace k name := by
  refine atPlace_modifyModel fun hk m => atPlace_fill ?_ _
  rintro rfl
  exact h (congrArg (RelationName.mk · l.name) hk)

/-- The places of the lines of a kind wait for their columns. -/
def Draft.Awaits (d : Draft) (kind : RelationKind) : Prop :=
  ∀ k m n, d.models.get? k = some m → (n, kind) ∈ d.relationLines k → m.columns.slot? n = some .pending

theorem Draft.Awaits.pending {kind : RelationKind} (hd : d.Awaits kind) {name : String}
    (hl : (name, kind) ∈ d.relationLines k) {c : Draft} (hc : c.atPlace k name = d.atPlace k name)
    (hm : c.models.get? k = some m) : m.columns.slot? name = some .pending := by
  unfold atPlace at hc
  rw [hm, Option.map_some] at hc
  obtain ⟨o, ho, heq⟩ := Option.map_eq_some_iff.mp hc.symm
  rw [pending_iff_atPlace, ← heq, ← pending_iff_atPlace]
  exact hd k o name ho hl

/-! ## Filled places -/

/-- The place of a relation is filled. -/
def Filled (k name : String) (d : Draft) : Prop :=
  ∀ m, d.models.get? k = some m → (m.relations.get? name).isSome

theorem Filled.edited {name : String} (hf : Filled k name d) (h : Edited stages d e) : Filled k name e := by
  intro n hn
  obtain ⟨m, hm, _⟩ := h.back hn
  exact h.keeps (P := fun m => (m.relations.get? name).isSome) (fun hs hP => hs.filled hP) hm hn (hf m hm)

/-- The place of a column is given up or filled. -/
def Placed (k name : String) (d : Draft) : Prop :=
  ∀ m, d.models.get? k = some m → name ∉ m.columns.pendingKeys

theorem Placed.edited {name : String} (hp : Placed k name d) (h : Edited stages d e) : Placed k name e := by
  intro n hn
  obtain ⟨m, hm, _⟩ := h.back hn
  exact h.keeps (P := fun m => name ∉ m.columns.pendingKeys) (fun hs hP hk => hP (hs.pending hk)) hm hn (hp m hm)

theorem edited_resolveRelation {l : DeclaredRelation} {link : Link} (hl : d.Declares l) (hk : link.kind = l.kind)
    (hs : l.kind.stage ∈ stages) (hr : link.references ⊆ d.models.keys) (hp : link.parents = []) :
    Edited stages d (d.resolveRelation l link) :=
  .of_modifyModel fun _ _ => .single (.fill (hk ▸ hs) (hk ▸ hl.line) hr hp)

theorem edited_resolveRelation_either {l : DeclaredRelation} (one many : Link) (hl : d.Declares l)
    (hk : l.kind ∈ [one.kind, many.kind]) (hs : l.kind.stage ∈ stages) (hone : one.references ⊆ d.models.keys)
    (hmany : many.references ⊆ d.models.keys) (hp : one.parents = [] ∧ many.parents = []) :
    Edited stages d (d.resolveRelation l (if l.kind = one.kind then one else many)) := by
  by_cases h : l.kind = one.kind
  · rw [if_pos h]
    exact edited_resolveRelation hl h.symm hs hone hp.1
  · rw [if_neg h]
    exact edited_resolveRelation hl ((List.mem_pair.mp hk).resolve_left h).symm hs hmany hp.2

theorem filled_resolveRelation (d : Draft) (l : DeclaredRelation) (link : Link) :
    Filled l.model l.name (d.resolveRelation l link) := by
  intro m hm
  obtain ⟨n, _, rfl⟩ := Draft.exists_of_get?_modifyModel hm
  rw [Slots.get?_resolve, if_pos rfl]
  rfl

theorem edited_of_lines {kinds : List RelationKind} {read : Draft → Except SchemaFault (List DeclaredRelation)}
    {f : DeclaredRelation → Resolve Unit} {Q : String → String → Draft → Prop}
    (hread : ∀ {ls}, read d = .ok ls → d.Lists kinds ls)
    (turn : ∀ {l c c'}, c.Sound → c.Declares l → l.kind ∈ kinds → f l c = .ok () c' →
      Edited stages c c' ∧ Q l.model l.name c')
    (keep : ∀ {k n c c'}, Edited stages c c' → Q k n c → Q k n c')
    (hd : d.Sound) (h : (do (← Resolve.inspect read).forM f) d = .ok () e) :
    Edited stages d e ∧ ∀ k n, ∀ kind ∈ kinds, (n, kind) ∈ d.relationLines k → Q k n e := by
  obtain ⟨ls, c, hi, h⟩ := Resolve.bind_run_ok.mp h
  obtain ⟨hr, rfl⟩ := Resolve.inspect_run_ok.mp hi
  obtain ⟨hls, hall, _⟩ := hread hr
  have turns : ∀ l ∈ ls, ∀ c c', Edited stages d c → f l c = .ok () c' → Edited stages c c' ∧ Q l.model l.name c' := by
    intro l hl c c' hc hf
    obtain ⟨hdecl, hk⟩ := hls l hl
    exact turn (hd.edited hc) (hdecl.along hc) hk hf
  refine ⟨Resolve.along_of_forM (fun l hl c c' hc hf => (turns l hl c c' hc hf).1) h, ?_⟩
  intro k n kind hk hn
  obtain ⟨l, hl, rfl, rfl, _⟩ := hall k n kind hk hn
  exact Resolve.forall_of_forM turns (fun _ _ _ => keep) h l hl

/-- A pass over lines comes to a line in one draft, and leaves it in another. -/
structure Turn (read : Draft → Except SchemaFault (List DeclaredRelation)) (f : DeclaredRelation → Resolve Unit)
    (d : Draft) (l : DeclaredRelation) (c c' : Draft) : Prop where
  reached : ∃ before after, read d = .ok (before ++ l :: after) ∧ before.forM f d = .ok () c
  left : f l c = .ok () c'

/-- A turn in a pass from one draft to another: no other turn touches the place of its line. -/
structure TurnIn (stages : List Stage) (read : Draft → Except SchemaFault (List DeclaredRelation))
    (f : DeclaredRelation → Resolve Unit) (d e : Draft) (l : DeclaredRelation) (c c' : Draft) : Prop
    extends Turn read f d l c c' where
  declares : d.Declares l
  before : Edited stages d c
  edited : Edited stages c c'
  after : Edited stages c' e
  found : c.atPlace l.model l.name = d.atPlace l.model l.name
  kept : e.atPlace l.model l.name = c'.atPlace l.model l.name

/-- What a turn leaves in the place of its line is there after the pass, since no later turn comes to it. -/
theorem TurnIn.resolved {read : Draft → Except SchemaFault (List DeclaredRelation)}
    {f : DeclaredRelation → Resolve Unit} {l : DeclaredRelation} {c c' : Draft} {link : Link}
    (ht : TurnIn stages read f d e l c (c'.resolveRelation l link)) (hn : e.models.get? l.model = some n) :
    ∃ m, c'.models.get? l.model = some m ∧ (atPlace l.name n).1 = (atPlace l.name m).1 ∧
      ∃ r, n.relations.get? l.name = some r ∧
        r.withoutParents = Relation.withoutParents ⟨l.name, l.methods, link⟩ := by
  obtain ⟨m', hm', _⟩ := ht.after.back hn
  obtain ⟨m, hm, rfl⟩ := Draft.exists_of_get?_modifyModel hm'
  have hplace := ht.kept
  rw [Draft.atPlace_of_get? hn, Draft.atPlace_of_get? hm'] at hplace
  obtain ⟨hslot, hrelation⟩ := Prod.ext_iff.mp (Option.some_inj.mp hplace)
  refine ⟨m, hm, hslot, Option.map_eq_some_iff.mp (hrelation.trans ?_)⟩
  unfold atPlace
  rw [Slots.get?_resolve, if_pos rfl]
  rfl

/-- A pass over the lines of some kinds comes to each of them once. -/
theorem turns_of_lines {kinds : List RelationKind} {read : Draft → Except SchemaFault (List DeclaredRelation)}
    {f : DeclaredRelation → Resolve Unit} (hread : ∀ {ls}, read d = .ok ls → d.Lists kinds ls)
    (apart : ∀ {l c c' k n}, l.relation ≠ ⟨k, n⟩ → f l c = .ok () c' → c'.atPlace k n = c.atPlace k n)
    (turn : ∀ {l c c'}, Edited stages d c → d.Declares l → l.kind ∈ kinds →
      c.atPlace l.model l.name = d.atPlace l.model l.name → f l c = .ok () c' → Edited stages c c')
    (h : (do (← Resolve.inspect read).forM f) d = .ok () e) :
    Edited stages d e ∧ ∀ k n, ∀ kind ∈ kinds, (n, kind) ∈ d.relationLines k →
      ∃ l c c', TurnIn stages read f d e l c c' ∧ l.model = k ∧ l.name = n ∧ l.kind = kind := by
  obtain ⟨ls, c, hi, h⟩ := Resolve.bind_run_ok.mp h
  obtain ⟨hr, rfl⟩ := Resolve.inspect_run_ok.mp hi
  obtain ⟨hls, hall, hn⟩ := hread hr
  have happart : ∀ l ∈ ls, ∀ l' ∈ ls, l'.relation ≠ l.relation →
      ∀ c c', f l' c = .ok () c' → c'.standing l.relation = c.standing l.relation := fun l _ l' _ hne c c' hf => apart hne hf
  have hturn : ∀ l ∈ ls, ∀ c c', Edited stages d c → c.standing l.relation = d.standing l.relation → f l c = .ok () c' → Edited stages c c' :=
    fun l hl c c' hc hv hf => turn hc (hls l hl).1 (hls l hl).2 hv hf
  -- A turn may count on the place of its line to be as the pass has found it, for the turns before it are for other places.
  refine ⟨Resolve.along_of_places hn happart hturn h, fun k n kind hk hl => ?_⟩
  obtain ⟨l, hm, rfl, rfl, rfl⟩ := hall k n kind hk hl
  obtain ⟨before, after, c, c', rfl, hb, hf, h₁, h₂, h₃, hv, hv'⟩ := Resolve.exists_turn hn happart hturn h hm
  exact ⟨l, c, c', ⟨⟨⟨before, after, hr, hb⟩, hf⟩, (hls l hm).1, h₁, h₂, h₃, hv, hv'⟩, rfl, rfl, rfl⟩

/-- What each turn of a pass over lines keeps holds after the pass. -/
theorem holds_of_lines {kinds : List RelationKind} {read : Draft → Except SchemaFault (List DeclaredRelation)}
    {f : DeclaredRelation → Resolve Unit} {P : Draft → Prop} (hread : ∀ {ls}, read d = .ok ls → d.Lists kinds ls)
    (apart : ∀ {l c c' k n}, l.relation ≠ ⟨k, n⟩ → f l c = .ok () c' → c'.atPlace k n = c.atPlace k n)
    (turn : ∀ {l c c'}, Edited stages d c → P c → d.Declares l → l.kind ∈ kinds →
      c.atPlace l.model l.name = d.atPlace l.model l.name → f l c = .ok () c' → Edited stages c c' ∧ P c')
    (h : (do (← Resolve.inspect read).forM f) d = .ok () e) (hd : P d) : P e := by
  obtain ⟨ls, c, hi, h⟩ := Resolve.bind_run_ok.mp h
  obtain ⟨hr, rfl⟩ := Resolve.inspect_run_ok.mp hi
  obtain ⟨hls, _, hn⟩ := hread hr
  have happart : ∀ l ∈ ls, ∀ l' ∈ ls, l'.relation ≠ l.relation →
      ∀ c c', f l' c = .ok () c' → c'.standing l.relation = c.standing l.relation := fun l _ l' _ hne c c' hf => apart hne hf
  have hturn : ∀ l ∈ ls, ∀ c c', Resolve.Preserves (fun c => Edited stages d c ∧ P c) d c →
      c.standing l.relation = d.standing l.relation → f l c = .ok () c' →
      Resolve.Preserves (fun c => Edited stages d c ∧ P c) c c' := by
    rintro l hl c c' _ hv hf ⟨hc, hp⟩
    obtain ⟨hcc', hp'⟩ := turn hc hp (hls l hl).1 (hls l hl).2 hv hf
    exact ⟨trans_of (Edited stages) hc hcc', hp'⟩
  have hrun : Resolve.Preserves (fun c => Edited stages d c ∧ P c) d e := Resolve.along_of_places hn happart hturn h
  exact (hrun ⟨refl_of (Edited stages) d, hd⟩).2

end Schemata.Resolution
